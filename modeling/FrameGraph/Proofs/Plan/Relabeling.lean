import FrameGraph.Proofs.Plan.Acceptance
import FrameGraph.Proofs.Plan.Sources

/-! Cells under other names. Scheduling works on the numbers of cells. The nodes that they stand
for show in the plan and nowhere before, and the devices to which they are pinned matter to
inference alone. So cells that stand for other nodes, and are pinned so that inference
finds the same devices, have the same schedule, and their plan is the same under the
other names. -/

namespace FrameGraph

/-! ### Names in plans -/

def Step.rename (ρ : NodeId → NodeId) : Step → Step
  | node id => .node (ρ id)
  | transfer number => .transfer number

def Source.rename (ρ : NodeId → NodeId) : Source → Source
  | output node index => .output (ρ node) index
  | transfer number => .transfer number

def Placement.rename (ρ : NodeId → NodeId) (place : Placement) : Placement :=
  { place with
    node := ρ place.node
    inputs := place.inputs.map fun input => input.map (Source.rename ρ)
    gate := place.gate.map (Source.rename ρ) }

def Transfer.rename (ρ : NodeId → NodeId) (t : Transfer) : Transfer :=
  { t with source := ρ t.source }

def Group.rename (ρ : NodeId → NodeId) (g : Group) : Group := { g with members := g.members.map ρ }

def Request.rename (ρ : NodeId → NodeId) (r : Request) : Request :=
  { r with producer := r.producer.rename ρ }

def Allocation.rename (ρ : NodeId → NodeId) (a : Allocation) : Allocation :=
  { a with toRequest := a.toRequest.rename ρ }

def Storage.rename (ρ : NodeId → NodeId) (s : Storage) : Storage :=
  { s with allocations := s.allocations.map (Allocation.rename ρ) }

/-- The plan with other names of all nodes. -/
def Plan.rename (ρ : NodeId → NodeId) (p : Plan) : Plan where
  waves := p.waves.map fun wave => wave.map (Step.rename ρ)
  placements := p.placements.map (Placement.rename ρ)
  transfers := p.transfers.map (Transfer.rename ρ)
  storage := p.storage.rename ρ
  groups := p.groups.map (Group.rename ρ)

@[simp] theorem Step.rename_id : Step.rename id = id := by
  funext step
  cases step <;> rfl

@[simp] theorem Source.rename_id : Source.rename id = id := by
  funext source
  cases source <;> rfl

@[simp] theorem Plan.rename_id (p : Plan) : p.rename id = p := by
  have hplacement : Placement.rename id = id := by
    funext place
    simp [Placement.rename]
  have htransfer : Transfer.rename id = id := rfl
  have hgroup : Group.rename id = id := by
    funext g
    simp [Group.rename]
  have hallocation : Allocation.rename id = id := by
    funext a
    simp [Allocation.rename, Request.rename]
  simp [rename, Storage.rename, hplacement, htransfer, hgroup, hallocation]

namespace Storage

variable {ρ : NodeId → NodeId}

/-- Storage is given without a look at who asks for it. -/
theorem place_rename (config : CompileConfig) (s : Storage) (r : Request) :
    (s.rename ρ).place config (r.rename ρ) = (s.place config r).rename ρ := by
  have hbind (binding : Binding) (slots : List Slot) :
      (s.rename ρ).bind (r.rename ρ) binding slots = (s.bind r binding slots).rename ρ := by
    simp [bind, rename, Allocation.rename]
  unfold place
  by_cases hexternal : r.lifetime = .external
  · rw [if_pos hexternal, if_pos (show (r.rename ρ).lifetime = .external from hexternal)]
    exact hbind _ _
  · rw [if_neg hexternal, if_neg (show ¬(r.rename ρ).lifetime = .external from hexternal)]
    by_cases hpooled : r.isPooled config = true
    · rw [if_pos hpooled, if_pos (show (r.rename ρ).isPooled config = true from hpooled)]
      have hfound : ((s.rename ρ).slots.findIdx? fun slot => slot.accepts (r.rename ρ)) =
          s.slots.findIdx? fun slot => slot.accepts r := rfl
      rw [hfound]
      split <;> exact hbind _ _
    · rw [if_neg hpooled, if_neg (show ¬(r.rename ρ).isPooled config = true from hpooled)]
      exact hbind _ _

theorem allocate_rename (config : CompileConfig) (requests : List Request) :
    allocate config (requests.map (Request.rename ρ)) = (allocate config requests).rename ρ := by
  rw [allocate, List.foldl_map]
  change requests.foldl (fun s r => s.place config (r.rename ρ)) (Storage.rename ρ {}) = _
  exact List.foldl_hom (rename ρ) fun s r => place_rename config s r

end Storage

/-! ### Cells -/

/-- The cell of another node, pinned in another way. -/
def Cell.relabel (ρ : NodeId → NodeId) (pin : Cell → Option Device) (c : Cell) : Cell :=
  { c with id := ρ c.id, pinned := pin c }

def Netlist.relabel (net : Netlist) (ρ : NodeId → NodeId) (pin : Cell → Option Device) : Netlist :=
  { net with cells := net.cells.map (Cell.relabel ρ pin) }

def Layout.relabel (l : Layout) (ρ : NodeId → NodeId) (pin : Cell → Option Device) : Layout :=
  ⟨l.net.relabel ρ pin, l.devices⟩

def Schedule.relabel (s : Schedule) (ρ : NodeId → NodeId) (pin : Cell → Option Device) : Schedule :=
  ⟨s.layout.relabel ρ pin, s.waves⟩

variable (ρ : NodeId → NodeId) (pin : Cell → Option Device)

namespace Layout

variable (l : Layout)

@[simp] theorem size_relabel : (l.relabel ρ pin).size = l.size := List.length_map _

@[simp] theorem stepCount_relabel : (l.relabel ρ pin).stepCount = l.stepCount :=
  congrArg (· + l.transfers.length) (l.size_relabel ρ pin)

@[simp] theorem uses_relabel : (l.relabel ρ pin).uses = l.uses := by
  have husesOf : (l.relabel ρ pin).usesOf = l.usesOf := by
    funext transfers e
    rw [usesOf, size_relabel]
    rfl
  rw [uses, husesOf]
  rfl

@[simp] theorem stepEdges_relabel : (l.relabel ρ pin).stepEdges = l.stepEdges := by
  rw [stepEdges, uses_relabel, stepEdges]

end Layout

namespace Schedule

variable (s : Schedule)

theorem cell?_relabel (i : Nat) :
    (s.relabel ρ pin).cell? i = (s.cell? i).map (Cell.relabel ρ pin) := List.getElem?_map

@[simp] theorem outputPort?_relabel (i output : Nat) :
    (s.relabel ρ pin).outputPort? i output = s.outputPort? i output := by
  rw [outputPort?, cell?_relabel, Option.bind_map]
  rfl

theorem nodeOf_relabel {i : Nat} (hi : i < s.layout.size) :
    (s.relabel ρ pin).nodeOf i = ρ (s.nodeOf i) := by
  have hcell : s.cell? i = some s.layout.net.cells[i] := List.getElem?_eq_getElem hi
  rw [nodeOf, cell?_relabel, nodeOf, hcell]
  rfl

theorem stepOf_relabel (i : Nat) : (s.relabel ρ pin).stepOf i = (s.stepOf i).rename ρ := by
  have hsize : (s.relabel ρ pin).layout.size = s.layout.size := s.layout.size_relabel ρ pin
  unfold stepOf
  rw [hsize]
  split
  · next hi => rw [nodeOf_relabel ρ pin s hi]; rfl
  · rfl

theorem resources_relabel (i : Nat) : (s.relabel ρ pin).resources i = s.resources i := by
  have hsize : (s.relabel ρ pin).layout.size = s.layout.size := s.layout.size_relabel ρ pin
  have hcells : ((s.relabel ρ pin).cell? i).map Cell.outputs = (s.cell? i).map Cell.outputs := by
    rw [cell?_relabel, Option.map_map]
    rfl
  simp only [resources, hsize, hcells, outputPort?_relabel]
  rfl

theorem requests_relabel :
    (s.relabel ρ pin).requests = s.requests.map (Request.rename ρ) := by
  have huses : (s.relabel ρ pin).layout.uses = s.layout.uses := s.layout.uses_relabel ρ pin
  simp only [requests, huses, resources_relabel, stepOf_relabel, List.map_flatMap, List.map_map]
  rfl

variable {s}

theorem sourceOf_relabel (hs : s.layout.net.Sound) {e : DataEdge} (he : e ∈ s.layout.net.data) :
    (s.relabel ρ pin).sourceOf e = (s.sourceOf e).rename ρ := by
  have hroute : (s.relabel ρ pin).layout.route e = s.layout.route e := rfl
  rw [sourceOf, hroute, sourceOf, nodeOf_relabel ρ pin s (hs.data_lt he).1]
  cases s.layout.route e <;> rfl

theorem placementOf_relabel (hs : s.layout.net.Sound) (cell : Cell) (i : Nat) :
    (s.relabel ρ pin).placementOf (cell.relabel ρ pin) i = (s.placementOf cell i).rename ρ := by
  have hinput (input : Nat) : (s.layout.net.feeder? i input).map (s.relabel ρ pin).sourceOf =
      ((s.layout.net.feeder? i input).map s.sourceOf).map (Source.rename ρ) := by
    rw [Option.map_map]
    exact Option.map_congr fun e he => sourceOf_relabel ρ pin hs (List.mem_of_find?_eq_some he)
  have hgate : ((s.layout.net.gates.find? fun e => e.sink == i).map fun e =>
      Source.output ((s.relabel ρ pin).nodeOf e.source) e.output) =
      ((s.layout.net.gates.find? fun e => e.sink == i).map fun e =>
        Source.output (s.nodeOf e.source) e.output).map (Source.rename ρ) := by
    rw [Option.map_map]
    refine Option.map_congr fun e he => ?_
    rw [nodeOf_relabel ρ pin s (hs.gate_lt (List.mem_of_find?_eq_some he)).1]
    rfl
  have hinputs : (List.range cell.inputs.length).map (fun input =>
      (s.layout.net.feeder? i input).map (s.relabel ρ pin).sourceOf) =
      ((List.range cell.inputs.length).map fun input =>
        (s.layout.net.feeder? i input).map s.sourceOf).map fun input =>
          input.map (Source.rename ρ) := by
    rw [List.map_map]
    exact List.map_congr_left fun input _ => hinput input
  exact Placement.mk.injEq .. ▸ ⟨rfl, rfl, hinputs, hgate⟩

theorem placements_relabel (hs : s.layout.net.Sound) :
    (s.relabel ρ pin).placements = s.placements.map (Placement.rename ρ) := by
  change (((s.layout.net.cells.map (Cell.relabel ρ pin)).zipIdx).map fun pair =>
    (s.relabel ρ pin).placementOf pair.1 pair.2) =
    (s.layout.net.cells.zipIdx.map fun pair => s.placementOf pair.1 pair.2).map _
  rw [List.zipIdx_map, List.map_map, List.map_map]
  exact List.map_congr_left fun pair _ => placementOf_relabel ρ pin hs pair.1 pair.2

theorem transfers_relabel (hs : s.layout.net.Sound) :
    (s.relabel ρ pin).transfers = s.transfers.map (Transfer.rename ρ) := by
  rw [transfers, transfers, List.map_map]
  refine List.map_congr_left fun c hc => ?_
  obtain ⟨e, he, hcross⟩ := Layout.mem_transfers.mp hc
  obtain ⟨_, rfl⟩ := Layout.crossing?_eq_some.mp hcross
  have hname : ((s.relabel ρ pin).cell? e.source).map Cell.name =
      (s.cell? e.source).map Cell.name := by
    rw [cell?_relabel, Option.map_map]
    rfl
  simp only [outputPort?_relabel, hname, nodeOf_relabel ρ pin s (hs.data_lt he).1]
  rfl

theorem join_relabel (groups : List (List Cell)) (cell : Cell) :
    join (groups.map (List.map (Cell.relabel ρ pin))) (cell.relabel ρ pin) =
      (join groups cell).map (List.map (Cell.relabel ρ pin)) := by
  have hshares : ((fun g : List Cell => g.head?.any (cell.relabel ρ pin).shares) ∘
      List.map (Cell.relabel ρ pin)) = fun g => g.head?.any cell.shares := by
    funext g
    rw [Function.comp_apply, List.head?_map, Option.any_map]
    rfl
  rw [join, List.findIdx?_map, hshares, join]
  cases groups.findIdx? fun g => g.head?.any cell.shares with
  | none => simp
  | some i =>
    refine List.ext_getElem? fun j => ?_
    simp only [List.getElem?_modify, List.getElem?_map]
    cases groups[j]? with
    | none => rfl
    | some g => by_cases hij : i = j <;> simp [hij]

theorem groups_relabel : (s.relabel ρ pin).groups = s.groups.map (Group.rename ρ) := by
  have hcells : (s.relabel ρ pin).order.filterMap (s.relabel ρ pin).cell? =
      (s.order.filterMap s.cell?).map (Cell.relabel ρ pin) := by
    rw [List.map_filterMap, funext (cell?_relabel ρ pin s)]
    rfl
  rw [groups, hcells, List.foldl_map, groups]
  have hjoin : (s.order.filterMap s.cell?).foldl (fun groups c => join groups (c.relabel ρ pin))
      ([].map (List.map (Cell.relabel ρ pin))) =
      ((s.order.filterMap s.cell?).foldl join []).map (List.map (Cell.relabel ρ pin)) :=
    List.foldl_hom _ fun groups cell => join_relabel ρ pin groups cell
  rw [List.map_nil] at hjoin
  rw [hjoin, List.map_map, List.map_map]
  refine List.map_congr_left fun members _ => ?_
  cases members <;> simp [Group.rename, Cell.relabel]

theorem plan_relabel (hs : s.layout.net.Sound) (config : CompileConfig) :
    (s.relabel ρ pin).plan config = (s.plan config).rename ρ := by
  have hwaves : (s.relabel ρ pin).waves.map (fun wave => wave.map (s.relabel ρ pin).stepOf) =
      (s.waves.map fun wave => wave.map s.stepOf).map fun wave => wave.map (Step.rename ρ) := by
    rw [List.map_map, funext (stepOf_relabel ρ pin s)]
    refine List.map_congr_left fun wave _ => ?_
    rw [Function.comp_apply, List.map_map]
    rfl
  simp only [plan, Plan.rename, hwaves, placements_relabel ρ pin hs, transfers_relabel ρ pin hs,
    requests_relabel, Storage.allocate_rename, groups_relabel]

end Schedule

/-! ### Scheduling -/

namespace Netlist

variable (net : Netlist)

theorem missingOf?_relabel (i : Nat) (cell : Cell) :
    (net.relabel ρ pin).missingOf? i (cell.relabel ρ pin) =
      (net.missingOf? i cell).map fun found => (found.1.relabel ρ pin, found.2) := by
  rw [missingOf?, missingOf?, List.map_findSome?]
  congr 1
  funext pair
  rw [Function.comp_apply, apply_ite (Option.map _)]
  rfl

theorem missing?_relabel : (net.relabel ρ pin).missing? =
    net.missing?.map fun found => (found.1.relabel ρ pin, found.2) := by
  rw [missing?_eq, missing?_eq, List.map_findSome?, relabel, List.zipIdx_map, List.findSome?_map]
  congr 1
  funext pair
  exact net.missingOf?_relabel ρ pin pair.2 pair.1

theorem cycleError_relabel : (net.relabel ρ pin).cycleError = net.cycleError := by
  funext cycle
  have hname (i : Nat) : (net.cells.map (Cell.relabel ρ pin))[i]?.map Cell.name =
      net.cells[i]?.map Cell.name := by
    rw [List.getElem?_map, Option.map_map]
    rfl
  simp only [cycleError, relabel, hname]

variable {pin} in
/-- Inference does not see the names of cells. -/
theorem infer_relabel (hpin : ∀ c ∈ net.cells, pin c = c.pinned) (fallback : Device)
    (order : List Nat) :
    Devices.infer (net.relabel ρ pin) fallback order = Devices.infer net fallback order := by
  have hpinned (i : Nat) : (net.relabel ρ pin).cells[i]?.bind Cell.pinned =
      net.cells[i]?.bind Cell.pinned := by
    rw [relabel, List.getElem?_map, Option.bind_map]
    exact Option.bind_congr fun c hc => hpin c (List.mem_of_getElem? hc)
  have hvisit : Devices.visit (net.relabel ρ pin) fallback = Devices.visit net fallback := by
    funext found i
    rw [Devices.visit, hpinned]
    rfl
  have hfound : (net.relabel ρ pin).cells.map Cell.pinned = net.cells.map Cell.pinned := by
    rw [relabel, List.map_map]
    exact List.map_congr_left hpin
  rw [Devices.infer, hvisit, hfound, Devices.infer]

variable {net}

/-- Cells under other names, pinned so that inference finds the same devices, have the same schedule
or the same error. -/
theorem schedule_relabel {fallback fallback' : Device}
    (h : ∀ first, Waves.sort net.cells.length net.dependencies = .ok first →
      Devices.infer (net.relabel ρ pin) fallback' first.flatten =
        Devices.infer net fallback first.flatten) :
    (net.relabel ρ pin).schedule fallback' =
      (net.schedule fallback).map fun s => s.relabel ρ pin := by
  have hsort : Waves.sort (net.relabel ρ pin).cells.length (net.relabel ρ pin).dependencies =
      Waves.sort net.cells.length net.dependencies := by
    rw [relabel, List.length_map]
    rfl
  have hname (i : Nat) : (net.relabel ρ pin).cells[i]?.map Cell.name =
      net.cells[i]?.map Cell.name := by
    rw [relabel, List.getElem?_map, Option.map_map]
    rfl
  have hsteps (devices : List Device) :
      Waves.sort (Layout.stepCount ⟨net.relabel ρ pin, devices⟩)
        (Layout.stepEdges ⟨net.relabel ρ pin, devices⟩) =
      Waves.sort (Layout.stepCount ⟨net, devices⟩) (Layout.stepEdges ⟨net, devices⟩) := by
    have hcount := Layout.stepCount_relabel ρ pin ⟨net, devices⟩
    have hedges := Layout.stepEdges_relabel ρ pin ⟨net, devices⟩
    rw [Layout.relabel] at hcount hedges
    rw [hcount, hedges]
  have hmissing := net.missing?_relabel ρ pin
  have hends := net.schedule_scheduled fallback
  generalize net.schedule fallback = result at hends ⊢
  cases hends with
  | missing hfound =>
    rw [hfound, Option.map_some] at hmissing
    have hend : (net.relabel ρ pin).Scheduled fallback' _ := .missing hmissing
    exact hend.schedule_eq
  | cyclic complete hcycle =>
    rw [complete] at hmissing
    change _ = Except.error _
    rw [← net.cycleError_relabel ρ pin]
    exact Scheduled.schedule_eq (.cyclic hmissing (hsort.trans hcycle))
  | conflict complete sorted hconflict =>
    rw [complete] at hmissing
    change _ = Except.error _
    rw [← hname]
    exact Scheduled.schedule_eq (.conflict hmissing (hsort.trans sorted)
      ((h _ sorted).trans hconflict))
  | tangled complete sorted inferred htangled =>
    rw [complete] at hmissing
    change _ = Except.error _
    rw [← net.cycleError_relabel ρ pin]
    refine Scheduled.schedule_eq (.tangled hmissing (hsort.trans sorted)
      ((h _ sorted).trans inferred) ?_)
    exact (hsteps _).trans htangled
  | ok complete sorted inferred hwaves =>
    rw [complete] at hmissing
    exact Scheduled.schedule_eq (.ok hmissing (hsort.trans sorted) ((h _ sorted).trans inferred)
      ((hsteps _).trans hwaves))

end Netlist

end FrameGraph
