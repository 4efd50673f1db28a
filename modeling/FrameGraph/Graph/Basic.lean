import FrameGraph.Clock
import FrameGraph.Graph.Names
import FrameGraph.Plan.Compile

/-! Frame graphs. A graph owns node types, nodes, connections, loops, a timer, the
compiler settings and the installed plan. A node lives in the slot of its number and
leaves the slot empty when it is removed, so numbers are never given twice; names are
looked up in an index that is kept beside the slots. -/

namespace FrameGraph

structure Graph (β : Type) where
  types : List (NodeType β) := NodeType.builtIn
  slots : List (Option (Node β)) := []
  names : NameIndex := {}
  connections : List Connection := []
  loops : LoopTable Float := {}
  timer : Timer := .ofClock {}
  config : CompileConfig := {}
  plan : Option Plan := none
  /-- Set by edits of what the installed plan was compiled from. -/
  isOutdated : Bool := false
  /-- The value that each transfer of the plan carries. -/
  carried : List Value := []
  /-- Frames executed so far. -/
  frame : Nat := 0

/-- Why an edit of a graph is refused. -/
inductive GraphError
  | unknownType (type : TypeId)
  | duplicateType (name : String)
  | duplicateNode (name : String)
  | tooManyInstances (type : String) (max : Nat)
  | invalidNode (node : NodeId)
  | invalidPort (node : String) (port : Port)
  | portKindMismatch (source sink : Port)
  | portTypeMismatch (expected found : PortType)
  | alreadyConnected (node : String) (port : Port)
  | invalidParam (node param reason : String)
  | unknownLoop (loop : LoopId)
  deriving DecidableEq, Repr

namespace GraphError

def message : GraphError → String
  | unknownType type => "unknown node type " ++ type.debugText
  | duplicateType name => s!"a node type named '{name}' is already registered"
  | duplicateNode name => s!"a node named '{name}' already exists"
  | tooManyInstances type max => s!"node type '{type}' allows at most {max} instances"
  | invalidNode node => "invalid node handle " ++ node.debugText
  | invalidPort node port => s!"node '{node}' has no port " ++ port.text
  | portKindMismatch source sink => "cannot connect " ++ source.text ++ " to " ++ sink.text
  | portTypeMismatch expected found =>
    "port type mismatch: " ++ found.name ++ " output cannot feed " ++ expected.name ++ " input"
  | alreadyConnected node port => port.text ++ s!" of node '{node}' already has a producer"
  | invalidParam node param reason => s!"invalid parameter '{param}' on node '{node}': {reason}"
  | unknownLoop loop => "unknown loop " ++ loop.text

end GraphError

namespace Graph

variable {β : Type} (g : Graph β)

/-- Live nodes in order of declaration. -/
def nodes : List (Node β) := g.slots.filterMap id

def node? (id : NodeId) : Option (Node β) := (g.slots[id.index]?).join

/-- The name of a node, empty for one that is not live. -/
def nameOf (id : NodeId) : String := ((g.node? id).map Node.name).getD ""

def type? (id : TypeId) : Option (NodeType β) := g.types[id.index]?

def typeOf? (id : NodeId) : Option (NodeType β) := (g.node? id).bind fun n => g.type? n.type

def typeNamed? (name : String) : Option TypeId :=
  (g.types.findIdx? fun t => t.name == name).map TypeId.mk

def nodeNamed? (name : String) : Option NodeId := g.names.find? name

/-- Live nodes of a type. -/
def instances (type : TypeId) : List NodeId :=
  (g.nodes.filter fun n => n.type == type).map Node.id

/-- Replace a live node; other numbers are ignored. -/
def modifyNode (id : NodeId) (f : Node β → Node β) : Graph β :=
  { g with slots := g.slots.modify id.index (Option.map f) }

/-! ### Topology -/

def dependencies : List Connection := g.connections.filter Connection.isDependency

/-- Numbers in ascending order, each once. -/
def distinctIds (ids : List NodeId) : List NodeId :=
  (ids.mergeSort fun a b => a.index ≤ b.index).eraseDups

/-- Direct producers over data and gate connections. -/
def producersOf (id : NodeId) : List NodeId :=
  distinctIds ((g.dependencies.filter fun c => c.sink == id).map Connection.source)

/-- Direct consumers over data and gate connections. -/
def consumersOf (id : NodeId) : List NodeId :=
  distinctIds ((g.dependencies.filter fun c => c.source == id).map Connection.sink)

/-- Nodes without producers. -/
def roots : List NodeId :=
  (g.nodes.map Node.id).filter fun id => !g.dependencies.any fun c => c.sink == id

/-- Nodes without consumers. -/
def leaves : List NodeId :=
  (g.nodes.map Node.id).filter fun id => !g.dependencies.any fun c => c.source == id

/-! ### Plans -/

def netlist : Except CompileError Netlist := Netlist.resolve g.types g.nodes g.connections

/-- The plan of the graph under some settings. The graph does not change. -/
def planFor (config : CompileConfig) : Except CompileError Plan := do
  (← g.netlist).compile config

/-- A plan is installed and matches the structure. -/
def isCompiled : Bool := g.plan.isSome && !g.isOutdated

/-- The names of the steps of the installed plan. Steps of nodes that are gone are left out. -/
def stepNames : List String :=
  match g.plan with
  | none => []
  | some plan => plan.order.filterMap fun
    | .node id => (g.node? id).map Node.name
    | .transfer t => plan.transfers[t]?.map Transfer.label

end Graph

end FrameGraph
