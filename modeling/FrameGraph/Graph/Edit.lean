import FrameGraph.Graph.Basic

/-! Edits of a graph. Each yields a graph and an answer, and the graph also when the answer
is an error: an edit changes the graph as it goes along, in the order of its checks and
writes, and nothing takes back what it wrote. An edit of anything that a plan is compiled
from marks the installed plan as outdated: nodes, their devices and pipeline parameters,
data and gate connections, the settings. Loop connections, other parameters, behaviors and
node types do not. -/

namespace FrameGraph

namespace Graph

variable {β : Type} (g : Graph β)

def registerLoop (config : LoopConfig Float) : Graph β × Except LoopError LoopId :=
  let (loops, answer) := g.loops.enroll config
  ({ g with loops }, answer)

def registerType (type : NodeType β) : Graph β × Except GraphError TypeId :=
  if (g.typeNamed? type.name).isSome then (g, .error (.duplicateType type.name))
  else ({ g with types := g.types ++ [type] }, .ok ⟨g.types.length⟩)

/-- Put a node into a new slot. -/
def place (node : Node β) : Graph β :=
  { g with
    slots := g.slots ++ [some node]
    names := g.names.insert node.name node.id
    isOutdated := true }

/-- Create a node. The type is checked first, then the name, then the number of instances. -/
def create (typeId : TypeId) (name : String) : Graph β × Except GraphError NodeId :=
  match g.type? typeId with
  | none => (g, .error (.unknownType typeId))
  | some type =>
    if (g.nodeNamed? name).isSome then (g, .error (.duplicateNode name))
    else
      match type.maxInstances.filter fun max => max ≤ (g.instances typeId).length with
      | some max => (g, .error (.tooManyInstances type.name max))
      | none =>
        let id : NodeId := ⟨g.slots.length⟩
        (g.place (.ofType id name typeId type), .ok id)

/-- Remove a node, its name and every connection that touches it. The slot is emptied before it is
known whether a node was in it. -/
def remove (id : NodeId) : Graph β × Except GraphError Unit :=
  let emptied := { g with slots := g.slots.set id.index none }
  match g.node? id with
  | none => (emptied, .error (.invalidNode id))
  | some node =>
    ({ emptied with
      names := emptied.names.erase node.name
      connections := emptied.connections.filter fun c => !c.touches id
      isOutdated := true }, .ok ())

/-- Store a parameter. A loop must be registered, the node live and the value accepted by its type,
in this order. -/
def setParam (id : NodeId) (name : String) (value : Value) : Graph β × Except GraphError Unit :=
  match value.asLoop.filter fun l => !g.loops.has l with
  | some l => (g, .error (.unknownLoop l))
  | none =>
    match g.node? id with
    | none => (g, .error (.invalidNode id))
    | some node =>
      match g.type? node.type with
      | none => (g, .error (.unknownType node.type))
      | some type =>
        match type.check name value with
        | some reason => (g, .error (.invalidParam node.name name reason))
        | none =>
          let edited := g.modifyNode id fun n => { n with params := n.params.insert name value }
          ({ edited with isOutdated := g.isOutdated || type.isPipelineParam name }, .ok ())

/-- Pin a node to a device, or unpin it. -/
def setDevice (id : NodeId) (device : Option Device) : Graph β × Except GraphError Unit :=
  match g.node? id with
  | none => (g, .error (.invalidNode id))
  | some _ => ({ g.modifyNode id fun n => { n with device } with isOutdated := true }, .ok ())

/-- Install the work of a node. -/
def setBehavior (id : NodeId) (behavior : β) : Graph β × Except GraphError Unit :=
  match g.node? id with
  | none => (g, .error (.invalidNode id))
  | some _ => (g.modifyNode id fun n => { n with work := some (.custom behavior) }, .ok ())

/-- Replace the settings. They count from the next compilation. -/
def setConfig (config : CompileConfig) : Graph β := { g with config, isOutdated := true }

/-- Create a node, then store one parameter on it. When the parameter is refused the node stays. -/
def createWith (type : TypeId) (name : String) (param : String) (value : Value) :
    Graph β × Except GraphError NodeId :=
  match g.create type name with
  | (created, .error e) => (created, .error e)
  | (created, .ok id) =>
    match created.setParam id param value with
    | (next, .error e) => (next, .error e)
    | (next, .ok ()) => (next, .ok id)

/-- Add a node that publishes a loop. -/
def addBridge (name : String) (loop : LoopId) : Graph β × Except GraphError NodeId :=
  if g.loops.has loop then g.createWith .bridge name loopParam (.loop loop)
  else (g, .error (.unknownLoop loop))

/-- Add a node that composes two booleans. -/
def addBoolOp (name : String) (op : BoolOp) : Graph β × Except GraphError NodeId :=
  g.createWith .boolOp name operationParam (.text op.name)

/-- Add a boolean constant. -/
def addConstant (name : String) (value : Bool) : Graph β × Except GraphError NodeId :=
  g.createWith .constant name valueParam (.bool value)

/-! ### Connections -/

/-- The end of `connect` for data and gates: the output must exist, have the expected type and find
its input free. -/
def join (c : Connection) (source : NodeType β) (output : Nat) (expected : PortType) :
    Graph β × Except GraphError Unit :=
  match source.outputs[output]? with
  | none => (g, .error (.invalidPort (g.nameOf c.source) c.sourcePort))
  | some port =>
    if port.type ≠ expected then (g, .error (.portTypeMismatch expected port.type))
    else if g.connections.any fun d => d.sink == c.sink && d.sinkPort == c.sinkPort then
      (g, .error (.alreadyConnected (g.nameOf c.sink) c.sinkPort))
    else ({ g with connections := g.connections ++ [c], isOutdated := true }, .ok ())

/-- Add a connection. The pair of ports is checked first, then the ends, then the ports of the ends.
A loop connection that exists already is accepted and changes nothing. -/
def connect (c : Connection) : Graph β × Except GraphError Unit :=
  match c.carries? with
  | none => (g, .error (.portKindMismatch c.sourcePort c.sinkPort))
  | some carried =>
    match g.typeOf? c.source, g.typeOf? c.sink with
    | none, _ => (g, .error (.invalidNode c.source))
    | _, none => (g, .error (.invalidNode c.sink))
    | some source, some sink =>
      match carried with
      | .loops =>
        if g.connections.contains c then (g, .ok ())
        else ({ g with connections := g.connections ++ [c] }, .ok ())
      | .data output input =>
        match sink.inputs[input]? with
        | none => (g, .error (.invalidPort (g.nameOf c.sink) c.sinkPort))
        | some port => g.join c source output port.type
      | .gate output => g.join c source output .bool

/-- Remove a connection; whether it existed. -/
def disconnect (c : Connection) : Graph β × Bool :=
  let kept := g.connections.filter fun d => d != c
  let removed := kept.length != g.connections.length
  ({ g with
      connections := kept
      isOutdated := g.isOutdated || removed && c.isDependency }, removed)

/-! ### Compilation -/

/-- Compile and install a plan. On failure the installed plan stays. -/
def compile : Graph β × Except CompileError Plan :=
  match g.planFor g.config with
  | .error e => (g, .error e)
  | .ok plan =>
    ({ g with
      carried := List.replicate plan.transfers.length .empty
      plan := some plan
      isOutdated := false }, .ok plan)

end Graph

end FrameGraph
