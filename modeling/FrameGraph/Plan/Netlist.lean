import FrameGraph.Node.Basic
import FrameGraph.Plan.Waves

/-! The compiler's view of a graph. A netlist lists the live nodes as cells, in order of
declaration, with all that their types contribute, and the data and gate connections
between them by cell number. It holds nothing else, so two graphs with one netlist
compile alike. Loop connections carry subscriptions and leave no trace in it. -/

namespace FrameGraph

/-- Why a graph does not compile. -/
inductive CompileError
  /-- The names along a cycle, the first repeated at the end. -/
  | cycle (names : List String)
  | unresolved (source sink reason : String)
  | unknownType (node : String)
  | missingInput (node port : String)
  | typeMismatch (source sink : String) (expected found : PortType)
  | deviceConflict (node : String) (devices : List Device)
  deriving DecidableEq, Repr

namespace CompileError

def message : CompileError → String
  | cycle names => "render graph contains a cycle: " ++ " -> ".intercalate names
  | unresolved source sink reason => s!"unresolved connection {source} -> {sink}: {reason}"
  | unknownType node => s!"node '{node}' has an unregistered type"
  | missingInput node port => s!"required input '{port}' of node '{node}' is not connected"
  | typeMismatch source sink expected found =>
    s!"port type mismatch on {source} -> {sink}: expected " ++ expected.name ++ ", found " ++
      found.name
  | deviceConflict node devices =>
    s!"node '{node}' inherits conflicting devices " ++
      Text.bracketed (devices.map Device.debugText) ++ "; assign a device explicitly"

end CompileError

/-- A live node as the compiler sees it. -/
structure Cell where
  id : NodeId
  name : String
  type : TypeId
  inputs : List InputPort
  outputs : List OutputPort
  pinned : Option Device
  /-- Whether the type lets nodes share a pipeline. -/
  instancing : Bool
  /-- The pipeline parameters, in the order of the type. A missing one counts as empty. -/
  params : List (String × Value)
  deriving DecidableEq

namespace Cell

variable {β : Type}

def ofNode (node : Node β) (type : NodeType β) : Cell where
  id := node.id
  name := node.name
  type := node.type
  inputs := type.inputs
  outputs := type.outputs
  pinned := node.device
  instancing := type.features.instancing
  params := type.pipelineParams.map fun name => (name, (node.params.get? name).getD .empty)

/-- Nodes that may share a pipeline: of one type that allows it and alike in every pipeline
parameter. -/
def shares (a b : Cell) : Bool :=
  a.instancing && b.instancing && a.type == b.type && a.params == b.params

end Cell

/-- A data connection between cell numbers. -/
structure DataEdge where
  source : Nat
  output : Nat
  sink : Nat
  input : Nat
  deriving DecidableEq, Repr

/-- A gate connection between cell numbers. -/
structure GateEdge where
  source : Nat
  output : Nat
  sink : Nat
  deriving DecidableEq, Repr

structure Netlist where
  cells : List Cell
  data : List DataEdge := []
  gates : List GateEdge := []
  deriving DecidableEq

namespace Netlist

variable {β : Type}

/-- The cells of live nodes. -/
def cellsOf (types : List (NodeType β)) (nodes : List (Node β)) : Except CompileError (List Cell) :=
  nodes.mapM fun node =>
    match types[node.type.index]? with
    | some type => .ok (Cell.ofNode node type)
    | none => .error (.unknownType node.name)

/-- The number of a node's cell. -/
def find? (net : Netlist) (id : NodeId) : Option Nat := net.cells.findIdx? fun c => c.id == id

/-- A port of a node in an error text. -/
def endText (net : Netlist) (id : NodeId) (port : Port) : String :=
  match net.cells.find? fun c => c.id == id with
  | some cell => cell.name ++ "." ++ port.text
  | none => id.debugText ++ "." ++ port.text

/-- Whether a port of a cell already has a producer. -/
def isFed (net : Netlist) (sink : Nat) (port : Port) : Bool :=
  match port with
  | .data input => net.data.any fun e => e.sink == sink && e.input == input
  | .gate => net.gates.any fun e => e.sink == sink
  | _ => false

/-- Add a connection after checking it against the ports of both ends. -/
def connect (net : Netlist) (c : Connection) : Except CompileError Netlist :=
  let refuse (reason : String) : Except CompileError Netlist :=
    .error (.unresolved (net.endText c.source c.sourcePort) (net.endText c.sink c.sinkPort) reason)
  match net.find? c.source, net.find? c.sink with
  | some source, some sink =>
    match c.carries? with
    | none => refuse "ports cannot be connected"
    | some .loops => .ok net
    | some (.data output input) =>
      match (net.cells[sink]?.bind fun cell => cell.inputs[input]?) with
      | none => refuse "input port does not exist"
      | some port =>
        joined source sink output port.type refuse
          { net with data := net.data ++ [⟨source, output, sink, input⟩] }
    | some (.gate output) =>
      joined source sink output .bool refuse
        { net with gates := net.gates ++ [⟨source, output, sink⟩] }
  | _, _ => refuse "endpoint does not exist"
where
  /-- The extended netlist, if the output exists, has the expected type and the input is free. -/
  joined (source sink output : Nat) (expected : PortType)
      (refuse : String → Except CompileError Netlist) (next : Netlist) :
      Except CompileError Netlist :=
    match (net.cells[source]?.bind fun cell => cell.outputs[output]?) with
    | none => refuse "output port does not exist"
    | some port =>
      if port.type ≠ expected then
        .error (.typeMismatch (net.endText c.source c.sourcePort) (net.endText c.sink c.sinkPort)
          expected port.type)
      else if net.isFed sink c.sinkPort then refuse "input has more than one producer"
      else .ok next

/-- The netlist of live nodes and the connections between them. -/
def resolve (types : List (NodeType β)) (nodes : List (Node β)) (connections : List Connection) :
    Except CompileError Netlist := do
  let cells ← cellsOf types nodes
  connections.foldlM connect { cells }

/-- The producers of a cell's data inputs. -/
def producers (net : Netlist) (sink : Nat) : List Nat :=
  (net.data.filter fun e => e.sink == sink).map DataEdge.source

/-- Data edges, then gate edges, without their ports. -/
def dependencies (net : Netlist) : List Edge :=
  net.data.map (fun e => ⟨e.source, e.sink⟩) ++ net.gates.map fun e => ⟨e.source, e.sink⟩

/-- The data edge into an input. -/
def feeder? (net : Netlist) (sink input : Nat) : Option DataEdge :=
  net.data.find? fun e => e.sink == sink && e.input == input

/-- The first required input without a data edge, cell by cell. -/
def missing? (net : Netlist) : Option (Cell × InputPort) :=
  net.cells.zipIdx.findSome? fun (cell, i) =>
    cell.inputs.zipIdx.findSome? fun (port, input) =>
      if !port.isOptional && (net.feeder? i input).isNone then some (cell, port) else none

end Netlist

end FrameGraph
