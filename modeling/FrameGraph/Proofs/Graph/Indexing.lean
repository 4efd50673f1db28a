import FrameGraph.Proofs.Graph.Devices
import FrameGraph.Proofs.Plan.Assembly

/-! Compilation on tables. A connection is resolved by reading the cells at its ends, and the passes
hand each other numbers of cells, steps and transfers with which the next pass reads its tables. A
read or a change outside a table has no answer, nor has taking an edge from an index that has none
left, nor a sort that does not end. A graph that was built by its commands has a sound wiring, and
then there is always an answer: the plan, or the error, of the graph. -/

namespace FrameGraph

namespace Netlist

variable {β : Type} {net : Netlist} {fallback : Device}

/-! ### Resolution -/

def connect? (net : Netlist) (c : Connection) : Option (Except CompileError Netlist) :=
  let refuse (reason : String) : Except CompileError Netlist :=
    .error (.unresolved (net.endText c.source c.sourcePort) (net.endText c.sink c.sinkPort) reason)
  match net.find? c.source, net.find? c.sink with
  | some source, some sink =>
    match c.carries? with
    | none => some (refuse "ports cannot be connected")
    | some .loops => some (.ok net)
    | some (.data output input) => do
      let cell ← net.cells[sink]?
      match cell.inputs[input]? with
      | none => return refuse "input port does not exist"
      | some port =>
        joined? source sink output port.type refuse
          { net with data := net.data ++ [⟨source, output, sink, input⟩] }
    | some (.gate output) =>
      joined? source sink output .bool refuse
        { net with gates := net.gates ++ [⟨source, output, sink⟩] }
  | _, _ => some (refuse "endpoint does not exist")
where
  /-- The extended netlist, by the outputs of the source. -/
  joined? (source sink output : Nat) (expected : PortType)
      (refuse : String → Except CompileError Netlist) (next : Netlist) :
      Option (Except CompileError Netlist) := do
    let cell ← net.cells[source]?
    match cell.outputs[output]? with
    | none => return refuse "output port does not exist"
    | some port =>
      if port.type ≠ expected then
        return .error (.typeMismatch (net.endText c.source c.sourcePort)
          (net.endText c.sink c.sinkPort) expected port.type)
      else if net.isFed sink c.sinkPort then return refuse "input has more than one producer"
      else return .ok next

def resolve? (types : List (NodeType β)) (nodes : List (Node β)) (connections : List Connection) :
    ExceptT CompileError Option Netlist :=
  match cellsOf types nodes with
  | .error e => some (.error e)
  | .ok cells => connections.foldlM connect? { cells }

theorem find?_lt {id : NodeId} {i : Nat} (h : net.find? id = some i) : i < net.cells.length :=
  (List.findIdx?_eq_some_iff_findIdx_eq.mp h).1

theorem joined?_eq {c : Connection} {source : Nat} (hsource : source < net.cells.length)
    (sink output : Nat) (expected : PortType) (refuse : String → Except CompileError Netlist)
    (next : Netlist) :
    connect?.joined? net c source sink output expected refuse next =
      some (connect.joined net c source sink output expected refuse next) := by
  have hcell := List.getElem?_eq_getElem hsource
  simp only [connect?.joined?, connect.joined, hcell, Option.bind_eq_bind, Option.bind_some,
    Option.pure_def]
  cases net.cells[source].outputs[output]? with
  | none => rfl
  | some port =>
    dsimp only
    split
    · rfl
    · split <;> rfl

/-- The ends that a netlist finds are its cells, so adding a connection always has an answer. -/
theorem connect?_eq (net : Netlist) (c : Connection) : net.connect? c = some (net.connect c) := by
  unfold connect? connect
  cases hsource : net.find? c.source with
  | none => rfl
  | some source =>
    cases hsink : net.find? c.sink with
    | none => rfl
    | some sink =>
      have hlt := find?_lt hsink
      rcases c.carries? with _ | ⟨output, input⟩ | _ | output
      · rfl
      · simp only [List.getElem?_eq_getElem hlt, Option.bind_eq_bind, Option.bind_some]
        cases net.cells[sink].inputs[input]? with
        | none => rfl
        | some port => exact joined?_eq (find?_lt hsource) ..
      · rfl
      · exact joined?_eq (find?_lt hsource) ..

theorem resolve?_eq (types : List (NodeType β)) (nodes : List (Node β))
    (connections : List Connection) :
    resolve? types nodes connections = some (resolve types nodes connections) := by
  unfold resolve? resolve
  cases cellsOf types nodes with
  | error e => rfl
  | ok cells =>
    exact foldlM_run (P := fun _ => True) (fun net _ c _ => connect?_eq net c)
      (fun _ _ _ _ _ _ => trivial) trivial

/-! ### Passes -/

/-- The first required input of a cell without a data edge. -/
def unfedOf? (net : Netlist) (i : Nat) (cell : Cell) : Option InputPort :=
  cell.inputs.zipIdx.findSome? fun (port, input) =>
    if !port.isOptional && (net.feeder? i input).isNone then some port else none

def unfed? (net : Netlist) : Option (Nat × InputPort) :=
  net.cells.zipIdx.findSome? fun (cell, i) => (net.unfedOf? i cell).map (i, ·)

/-- The plan of a netlist, and how many transients are reported to share a slot. -/
def compile? (net : Netlist) (config : CompileConfig) :
    Option (Except CompileError (Plan × Nat)) := do
  if let some (i, port) := net.unfed? then
    let cell ← net.cells[i]?
    return .error (.missingInput cell.name port.name)
  match ← Waves.sort? net.cells.length net.dependencies with
  | .error cycle => return .error (net.cycleError cycle)
  | .ok first =>
    match ← Devices.infer? net config.defaultDevice first.flatten with
    | .error conflict =>
      let cell ← net.cells[conflict.cell]?
      return .error (.deviceConflict cell.name conflict.devices)
    | .ok devices =>
      let routing ← Routing.route? net.data devices
      let steps := (routing.uses net).map fun u => ⟨u.producer, u.reader⟩
      match ← Waves.sort? (net.cells.length + routing.transfers.length) steps with
      | .error cycle => return .error (net.cycleError cycle)
      | .ok waves => return .ok (← Draft.plan? ⟨net, devices, routing, waves⟩ config)

theorem missingOf?_eq (net : Netlist) (i : Nat) (cell : Cell) :
    net.missingOf? i cell = (net.unfedOf? i cell).map (cell, ·) := by
  rw [missingOf?, unfedOf?, List.map_findSome?]
  refine congrArg (cell.inputs.zipIdx.findSome? ·) (funext fun p => ?_)
  simp only [Function.comp]
  split <;> rfl

theorem unfed?_cases (net : Netlist) :
    net.missing? = none ∧ net.unfed? = none ∨
      ∃ i cell port, net.cells[i]? = some cell ∧ net.missing? = some (cell, port) ∧
        net.unfed? = some (i, port) := by
  have hread : ∀ p ∈ net.cells.zipIdx, net.cells[p.2]? = some p.1 := fun p hp =>
    List.mem_zipIdx_iff_getElem?.mp hp
  simp only [missing?_eq, unfed?, missingOf?_eq]
  generalize net.cells.zipIdx = places at hread
  induction places with
  | nil => exact .inl ⟨rfl, rfl⟩
  | cons place places ih =>
    obtain ⟨cell, i⟩ := place
    simp only [List.findSome?_cons]
    cases net.unfedOf? i cell with
    | none => exact ih fun p hp => hread p (List.mem_cons_of_mem _ hp)
    | some port => exact .inr ⟨i, cell, port, hread (cell, i) List.mem_cons_self, rfl, rfl⟩

theorem unfed?_eq_none (h : net.missing? = none) : net.unfed? = none := by
  rcases net.unfed?_cases with ⟨_, hunfed⟩ | ⟨_, _, _, _, hmissing, _⟩
  · exact hunfed
  · exact nomatch h.symm.trans hmissing

theorem infer?_sorted (hs : net.Sound) {first : List (List Nat)}
    (sorted : Waves.sort net.cells.length net.dependencies = .ok first) :
    Devices.infer? net fallback first.flatten =
      some (Devices.infer net fallback first.flatten) := by
  have horder := Waves.flatten_perm hs.dependencies_within sorted
  exact Devices.infer?_eq hs fun i hi => List.mem_range.mp (horder.mem_iff.mp hi)

theorem sort?_steps {l : Layout} (hs : l.net.Sound) :
    Waves.sort? (l.net.cells.length + (Routing.ofLayout l).transfers.length)
        (((Routing.ofLayout l).uses l.net).map fun u => ⟨u.producer, u.reader⟩) =
      some (Waves.sort l.stepCount l.stepEdges) := by
  rw [Routing.uses_ofLayout]
  exact Waves.sort?_eq (Layout.stepEdges_within hs)

/-- Compilation on tables answers what compilation does, by how scheduling ends. -/
theorem compile?_eq (hs : net.Sound) (config : CompileConfig) :
    net.compile? config =
      some ((net.compile config).map fun p => (p, p.storage.aliasedCount)) := by
  have hfirst := Waves.sort?_eq hs.dependencies_within
  have hroute {first : List (List Nat)} {devices : List Device}
      (sorted : Waves.sort net.cells.length net.dependencies = .ok first)
      (inferred : Devices.infer net config.defaultDevice first.flatten = .ok devices) :
      Routing.route? net.data devices = some (.ofLayout ⟨net, devices⟩) :=
    Routing.route?_eq (l := ⟨net, devices⟩) hs (infer_resolves hs sorted inferred).1
  have hsteps (devices : List Device) := sort?_steps (l := ⟨net, devices⟩) hs
  have hends := net.schedule_scheduled config.defaultDevice
  rw [compile]
  generalize net.schedule config.defaultDevice = result at hends
  cases hends with
  | missing h =>
    rcases net.unfed?_cases with ⟨hnone, _⟩ | ⟨i, cell, port, hcell, hmissing, hunfed⟩
    · cases h.symm.trans hnone
    · obtain ⟨rfl, rfl⟩ := Prod.mk.inj (Option.some.inj (h.symm.trans hmissing))
      simp only [compile?, hunfed, hcell, Option.bind_eq_bind, Option.bind_some]
      rfl
  | cyclic complete h =>
    simp only [compile?, unfed?_eq_none complete, hfirst, h, Option.bind_eq_bind, Option.bind_some]
    rfl
  | conflict complete sorted h =>
    have hspec := Devices.infer_spec net config.defaultDevice _
      (Waves.flatten_perm hs.dependencies_within sorted)
      fun _ _ _ hsplit _ hp => producers_before hs sorted hsplit hp
    rw [h] at hspec
    simp only [compile?, unfed?_eq_none complete, hfirst, sorted, infer?_sorted hs sorted, h,
      List.getElem?_eq_getElem hspec.lt, Option.bind_eq_bind, Option.bind_some]
    rfl
  | tangled complete sorted inferred h =>
    simp only [compile?, unfed?_eq_none complete, hfirst, sorted, infer?_sorted hs sorted, inferred,
      hroute sorted inferred, hsteps, h, Option.bind_eq_bind, Option.bind_some]
    rfl
  | ok complete sorted inferred h =>
    have hfilled : Schedule.Filled ⟨⟨net, _⟩, _⟩ :=
      { sound := hs, sorted := h, length_devices := (infer_resolves hs sorted inferred).1 }
    have hplan := Draft.plan?_eq hfilled config
    rw [Draft.ofSchedule] at hplan
    simp only [compile?, unfed?_eq_none complete, hfirst, sorted, infer?_sorted hs sorted, inferred,
      hroute sorted inferred, hsteps, h, hplan, Option.bind_eq_bind, Option.bind_some]
    rfl

/-- A gate edge from a cell that is not there has no place in the tables. -/
example : compile? { cells := [], gates := [⟨0, 0, 0⟩] } {} = none := by decide +kernel

end Netlist

namespace Graph

variable {β : Type} {g : Graph β}

/-- The plan of a graph on tables, and how many transients are reported to share a slot. -/
def compile? (g : Graph β) (config : CompileConfig) :
    Option (Except CompileError (Plan × Nat)) := do
  match ← Netlist.resolve? g.types g.nodes g.connections with
  | .error e => return .error e
  | .ok net => net.compile? config

/-- For every graph that was built by its commands and under all settings, compilation on tables
has an answer, and it is that of compilation. So every number with which resolution, the sorts,
inference, routing, positions, lifetimes, storage and groups read or change a table is within that
table, and no index is freed of more edges than it has. -/
theorem Reachable.compiles_in_range [Behavior β] (hg : Reachable g) (config : CompileConfig) :
    g.compile? config =
      some ((g.planFor config).map fun p => (p, p.storage.aliasedCount)) := by
  have hi := hg.integral
  have hnet : Netlist.resolve g.types g.nodes g.connections = .ok g.wiring := hi.netlist_eq
  have hresolve : Netlist.resolve? g.types g.nodes g.connections = some (.ok g.wiring) := by
    rw [Netlist.resolve?_eq, hnet]
  rw [compile?, hresolve, hi.planFor_eq]
  exact Netlist.compile?_eq hi.wiring_sound config

/-- A graph with transfers to two devices compiles on tables. -/
theorem fan_in_range : ∃ plan, fan.planFor {} = .ok plan ∧ plan.transfers.length = 2 ∧
    fan.compile? {} = some (.ok (plan, plan.storage.aliasedCount)) := by
  have hplan : (fan.planFor {}).map (fun plan => plan.transfers.length) = .ok 2 := by decide +kernel
  obtain ⟨plan, hplan, hlength⟩ := exists_of_map_eq_ok hplan
  have htables := fan_reachable.compiles_in_range {}
  rw [hplan] at htables
  exact ⟨plan, hplan, hlength, htables⟩

end Graph

end FrameGraph
