import FrameGraph.Graph.Subscriptions

/-! Reading values and gates. A source is an output of a node or the value that a
transfer carries. A gated node runs when its gate reads true; an ungated one when it
has no subscriptions or one of its loops triggered. Combinational nodes always run. On
a catch-up step an ungated node runs only when one of its loops triggered. -/

namespace FrameGraph

/-- A walk over the plan within a frame. -/
inductive Pass
  | main
  | catchUp
  deriving DecidableEq, Repr

namespace Graph

variable {β : Type} (g : Graph β)

/-- The value at a source, empty when there is none. -/
def read : Source → Value
  | .output id index => ((g.node? id).bind fun n => n.outputs[index]?).getD .empty
  | .transfer t => g.carried.getD t .empty

/-- A gate that reads anything but true is closed. -/
def readGate (source : Source) : Bool := (g.read source).asBool.getD false

/-- One of the node's loops triggered. -/
def isDriven (node : Node β) : Bool := node.subscriptions.any g.loops.isTriggered

/-- The first of the node's loops that triggered. -/
def drivingLoop? (node : Node β) : Option LoopId := node.subscriptions.find? g.loops.isTriggered

/-- The gate of a node under a plan. -/
def gateUnder (plan : Option Plan) (id : NodeId) : Bool :=
  match plan.bind fun p => p.gateSource? id with
  | some source => g.readGate source
  | none => (g.node? id).any fun node => node.subscriptions.isEmpty || g.isDriven node

/-- The gate of a node as the graph stands. -/
def isOpen (id : NodeId) : Bool := g.gateUnder g.plan id

def isCombinational (id : NodeId) : Bool := (g.typeOf? id).any fun t => t.features.combinational

/-- Whether a node runs at its turn in a pass. -/
def runs (plan : Plan) (pass : Pass) (id : NodeId) : Bool :=
  g.isCombinational id ||
    match pass, plan.gateSource? id with
    | .main, _ => g.gateUnder (some plan) id
    | .catchUp, some source => g.readGate source
    | .catchUp, none => (g.node? id).any g.isDriven

end Graph

end FrameGraph
