import FrameGraph.Plan.Storage

/-! Execution plans. A plan schedules every live node and every transfer in waves,
says for each node which device it runs on and where its inputs and its gate read,
binds resources to storage and groups nodes that share a pipeline. Compilation checks
required inputs, sorts the cells, infers devices, routes edges across devices, sorts
again with the transfers, and lays out the result; the first problem found is the
error. -/

namespace FrameGraph

/-- Where an input or a gate reads its value. -/
inductive Source
  | output (node : NodeId) (index : Nat)
  | transfer (number : Nat)
  deriving DecidableEq, Repr

/-- A copy of one output to another device. -/
structure Transfer where
  source : NodeId
  output : Nat
  origin : Device
  target : Device
  type : PortType
  size : Nat
  label : String
  deriving DecidableEq, Repr

/-- The place of a node in a plan. -/
structure Placement where
  node : NodeId
  device : Device
  /-- One entry per input port. -/
  inputs : List (Option Source)
  gate : Option Source
  deriving DecidableEq, Repr

/-- Nodes that share one pipeline, in plan order, and the pipeline parameters they agree on. -/
structure Group where
  type : TypeId
  params : List (String × Value)
  members : List NodeId
  deriving DecidableEq, Repr

structure Plan where
  waves : List (List Step) := []
  /-- In order of declaration. -/
  placements : List Placement := []
  transfers : List Transfer := []
  storage : Storage := {}
  groups : List Group := []
  deriving DecidableEq, Repr

namespace Plan

/-- The steps in execution order. -/
def order (p : Plan) : List Step := p.waves.flatten

def placement? (p : Plan) (id : NodeId) : Option Placement :=
  p.placements.find? fun place => place.node == id

def deviceOf? (p : Plan) (id : NodeId) : Option Device := (p.placement? id).map Placement.device

def inputSource? (p : Plan) (id : NodeId) (input : Nat) : Option Source :=
  ((p.placement? id).bind fun place => place.inputs[input]?).join

def gateSource? (p : Plan) (id : NodeId) : Option Source := (p.placement? id).bind Placement.gate

/-- The number of a node's group. -/
def groupOf? (p : Plan) (id : NodeId) : Option Nat :=
  p.groups.findIdx? fun g => g.members.contains id

/-- What is reported of a new plan. -/
def notice (p : Plan) : Notice :=
  .debug (s!"Compiled render graph: {p.placements.length} nodes, " ++
    s!"{p.transfers.length} transfers, " ++
    s!"{p.waves.length} waves, {p.groups.length} pipeline groups, " ++
    s!"{p.storage.slots.length} storage slots ({p.storage.aliasedCount} aliased transients)")

end Plan

/-- Cells and transfers in waves of step numbers. -/
structure Schedule where
  layout : Layout
  waves : List (List Nat)
  deriving DecidableEq

namespace Schedule

variable (s : Schedule)

def order : List Nat := s.waves.flatten

def cell? (i : Nat) : Option Cell := s.layout.net.cells[i]?

/-- The node behind a cell number. -/
def nodeOf (i : Nat) : NodeId := ((s.cell? i).map Cell.id).getD ⟨0⟩

def stepOf (i : Nat) : Step :=
  if i < s.layout.size then .node (s.nodeOf i) else .transfer (i - s.layout.size)

/-- The last position at which an output of the step at `position` is read, or `position`. -/
def lastUse (order : List Nat) (uses : List Use) (step output position : Nat) : Nat :=
  ((uses.filter fun u => u.producer == step && u.output == output).map
    fun u => order.idxOf u.reader).foldl max position

/-- The port behind an output of a cell. -/
def outputPort? (i output : Nat) : Option OutputPort := (s.cell? i).bind fun c => c.outputs[output]?

/-- The outputs of a step that may need storage: their number, lifetime, device and size. -/
def resources (i : Nat) : List (Nat × Lifetime × Device × Nat) :=
  if i < s.layout.size then
    ((s.cell? i).map Cell.outputs).getD [] |>.zipIdx.filterMap fun (port, output) =>
      if port.type = .resource then
        some (output, port.lifetime, s.layout.deviceOf i, port.size)
      else none
  else
    match s.layout.transfers[i - s.layout.size]? with
    | none => []
    | some crossing =>
      match s.outputPort? crossing.source crossing.output with
      | none => []
      | some port =>
        if port.type = .resource then
          let lifetime := if port.lifetime = .transient then .transient else .product
          [(0, lifetime, crossing.target, port.size)]
        else []

/-- The outputs that ask for storage, in plan order. -/
def requests : List Request :=
  let order := s.order
  let uses := s.layout.uses
  order.zipIdx.flatMap fun (i, position) =>
    (s.resources i).map fun (output, lifetime, device, size) =>
      { producer := s.stepOf i
        output, lifetime, device, size
        firstUse := position
        lastUse := lastUse order uses i output position }

def transfers : List Transfer :=
  s.layout.transfers.map fun crossing =>
    let port := (s.outputPort? crossing.source crossing.output).getD { name := "", type := .bool }
    { source := s.nodeOf crossing.source
      output := crossing.output
      origin := s.layout.deviceOf crossing.source
      target := crossing.target
      type := port.type
      size := port.size
      label := ((s.cell? crossing.source).map Cell.name).getD "" ++ "." ++ port.name ++ "->" ++
        crossing.target.text }

/-- Where the sink of a data edge reads. -/
def sourceOf (e : DataEdge) : Source :=
  match s.layout.route e with
  | none => .output (s.nodeOf e.source) e.output
  | some t => .transfer t

def placements : List Placement :=
  s.layout.net.cells.zipIdx.map fun (cell, i) =>
    { node := cell.id
      device := s.layout.deviceOf i
      inputs := (List.range cell.inputs.length).map fun input =>
        (s.layout.net.feeder? i input).map s.sourceOf
      gate := (s.layout.net.gates.find? fun e => e.sink == i).map fun e =>
        .output (s.nodeOf e.source) e.output }

/-- Put a cell into the first group whose first member it may share with, or into a new one. -/
def join (groups : List (List Cell)) (cell : Cell) : List (List Cell) :=
  match groups.findIdx? fun g => g.head?.any cell.shares with
  | some i => groups.modify i (· ++ [cell])
  | none => groups ++ [[cell]]

def groups : List Group :=
  ((s.order.filterMap s.cell?).foldl join []).map fun members =>
    { type := (members.head?.map Cell.type).getD ⟨0⟩
      params := (members.head?.map Cell.params).getD []
      members := members.map Cell.id }

def plan (config : CompileConfig) : Plan where
  waves := s.waves.map fun wave => wave.map s.stepOf
  placements := s.placements
  transfers := s.transfers
  storage := .allocate config s.requests
  groups := s.groups

end Schedule

namespace Netlist

/-- The error for a cycle of step numbers. A transfer has no name of its own. -/
def cycleError (net : Netlist) (cycle : List Nat) : CompileError :=
  let names := cycle.map fun i => (net.cells[i]?.map Cell.name).getD "<transfer>"
  .cycle (names ++ names.take 1)

/-- The schedule of a netlist. -/
def schedule (net : Netlist) (fallback : Device) : Except CompileError Schedule := do
  if let some (cell, port) := net.missing? then
    throw (.missingInput cell.name port.name)
  let first ← (Waves.sort net.cells.length net.dependencies).mapError net.cycleError
  let devices ← (Devices.infer net fallback first.flatten).mapError fun conflict =>
    .deviceConflict ((net.cells[conflict.cell]?.map Cell.name).getD "") conflict.devices
  let layout : Layout := ⟨net, devices⟩
  let waves ← (Waves.sort layout.stepCount layout.stepEdges).mapError net.cycleError
  return ⟨layout, waves⟩

/-- The plan of a netlist. -/
def compile (net : Netlist) (config : CompileConfig) : Except CompileError Plan :=
  (net.schedule config.defaultDevice).map fun s => s.plan config

end Netlist

end FrameGraph
