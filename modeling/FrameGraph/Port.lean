import FrameGraph.Value

/-! Ports of nodes and the directed connections between them. A port is a data port of
the node's type or one of three reserved ones. A connection carries data, a gate
value or loop subscriptions, which its pair of ports decides; the first two order
their ends, the third does not. -/

namespace FrameGraph

/-- The number of a node, counted from zero in order of creation and never given twice. -/
structure NodeId where
  index : Nat
  deriving DecidableEq, Repr

namespace NodeId

def debugText (id : NodeId) : String := s!"NodeHandle({id.index})"

end NodeId

/-- A device of the application, by number. -/
structure Device where
  index : Nat
  deriving DecidableEq, Repr

namespace Device

/-- The device used when nothing else decides. -/
def primary : Device := ⟨0⟩

def text (d : Device) : String := s!"device#{d.index}"

def debugText (d : Device) : String := s!"DeviceHandle({d.index})"

end Device

/-- A port of a node. -/
inductive Port
  /-- The data port at this place of the type's inputs or outputs. -/
  | data (index : Nat)
  /-- Receives loop subscriptions from any number of producers. -/
  | loopIn
  /-- Publishes the loops that drive the node. -/
  | loopOut
  /-- Boolean override of the loop gating, from at most one producer. -/
  | gate
  deriving DecidableEq, Repr

namespace Port

def text : Port → String
  | data index => s!"data[{index}]"
  | loopIn => "loop-in"
  | loopOut => "loop-out"
  | gate => "gate"

def rank : Port → Nat
  | data _ => 0
  | loopIn => 1
  | loopOut => 2
  | gate => 3

/-- Data ports by index, then loop input, loop output and gate. -/
def compare : Port → Port → Ordering
  | data i, data j => Ord.compare i j
  | p, q => Ord.compare p.rank q.rank

end Port

/-- What a connection carries. -/
inductive Carries
  | data (output input : Nat)
  | loops
  | gate (output : Nat)
  deriving DecidableEq, Repr

/-- A directed connection between two ports. -/
structure Connection where
  source : NodeId
  sourcePort : Port
  sink : NodeId
  sinkPort : Port
  deriving DecidableEq, Repr

namespace Connection

/-- What the pair of ports carries, if it may be connected at all. -/
def carries? (c : Connection) : Option Carries :=
  match c.sourcePort, c.sinkPort with
  | .data output, .data input => some (.data output input)
  | .loopOut, .loopIn => some .loops
  | .data output, .gate => some (.gate output)
  | _, _ => none

/-- Data and gate connections order their ends. -/
def isDependency (c : Connection) : Bool :=
  match c.carries? with
  | some (.data _ _) | some (.gate _) => true
  | _ => false

def carriesLoops (c : Connection) : Bool := c.carries? == some .loops

def touches (c : Connection) (node : NodeId) : Bool := c.source == node || c.sink == node

end Connection

end FrameGraph
