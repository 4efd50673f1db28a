import Mathlib.Data.List.Find
import FrameGraph.Proofs.Plan.Assignment
import FrameGraph.Proofs.Plan.Coloring

/-! The plan laid out from tables. From cells, devices, routes and waves of step numbers the pieces
of a plan are made by reading the cell, the device, the transfer or the position behind a number;
the pool knows its slots by their numbers, and a group is found by its number. A read or a change
outside a table has no answer. Of a schedule every number is in range, so there is always one, and
it is the plan of the schedule. -/

namespace FrameGraph

/-! ### Storage -/

namespace Storage

/-- The first slot of a pool that accepts a request, by its number. -/
def search? (slots : List Slot) (r : Request) : List Nat → Option (Option Nat)
  | [] => some none
  | i :: rest => do
    let slot ← slots[i]?
    if slot.accepts r then return some i else search? slots r rest

def place? (config : CompileConfig) : Storage × List Nat → Request → Option (Storage × List Nat)
  | (s, pool), r =>
    if r.lifetime = .external then some (s.bind r .external s.slots, pool)
    else if r.isPooled config then do
      match ← search? s.slots r pool with
      | some i =>
        let slots ← change? s.slots i fun slot => slot.join r
        return (s.bind r (.aliased i) slots, pool)
      | none =>
        let i := s.slots.length
        return (s.bind r (.aliased i) (s.slots ++ [.ofRequest i r (some r.lastUse)]), pool ++ [i])
    else
      let i := s.slots.length
      some (s.bind r (.dedicated i) (s.slots ++ [.ofRequest i r none]), pool)

def allocate? (config : CompileConfig) (requests : List Request) : Option Storage :=
  (requests.foldlM (place? config) ({}, [])).map Prod.fst

def aliasedCount? (s : Storage) : Option Nat := do
  let sharing ← s.allocations.mapM fun a =>
    match a.binding with
    | .aliased i => (s.slots[i]?).map fun slot => decide (1 < slot.residents)
    | _ => some false
  return sharing.count true

def shared (slots : List Slot) : List Nat :=
  (List.range slots.length).filter fun i => (slots[i]?).any fun slot => slot.busyUntil.isSome

variable {slots : List Slot} {r : Request} {s : Storage} {config : CompileConfig}

theorem shared_append (slots : List Slot) (new : Slot) :
    shared (slots ++ [new]) =
      shared slots ++ if new.busyUntil.isSome then [slots.length] else [] := by
  have hold : (List.range slots.length).filter (fun i =>
      ((slots ++ [new])[i]?).any fun slot => slot.busyUntil.isSome) = shared slots := by
    refine List.filter_congr fun i hi => ?_
    rw [List.getElem?_append_left (List.mem_range.mp hi)]
  rw [shared, List.length_append, List.length_singleton, List.range_succ, List.filter_append, hold,
    List.filter_singleton, List.getElem?_concat_length]
  cases h : new.busyUntil <;> simp [h]

theorem shared_join {i : Nat} (hi : (slots.findIdx? fun slot => slot.accepts r) = some i) :
    shared (slots.modify i fun slot => slot.join r) = shared slots := by
  obtain ⟨hlt, haccepts, _⟩ := List.findIdx?_eq_some_iff_getElem.mp hi
  obtain ⟨_, last, hlast, _⟩ := accepts_iff.mp haccepts
  rw [shared, List.length_modify]
  refine List.filter_congr fun j hj => ?_
  rw [List.getElem?_modify]
  split
  · next heq =>
    subst heq
    simp [hlt, hlast, Slot.join]
  · simp

/-- The pool is searched as all slots are, since only slots of the pool accept a request. -/
theorem search?_shared (slots : List Slot) (r : Request) :
    search? slots r (shared slots) = some (slots.findIdx? fun slot => slot.accepts r) := by
  have hfind (pool : List Nat) (hpool : ∀ i ∈ pool, i < slots.length) :
      search? slots r pool =
        some (pool.find? fun i => (slots[i]?).any fun slot => slot.accepts r) := by
    induction pool with
    | nil => rfl
    | cons i pool ih =>
      have hi := hpool i List.mem_cons_self
      simp only [search?, List.getElem?_eq_getElem hi, Option.bind_eq_bind, Option.bind_some,
        ih fun j hj => hpool j (List.mem_cons_of_mem i hj)]
      split
      · next haccepts => rw [List.find?_cons_of_pos (by simpa [hi] using haccepts)]; rfl
      · next hrefuses => rw [List.find?_cons_of_neg (by simpa [hi] using hrefuses)]
  have hbusy {i : Nat} (hi : i < slots.length) (haccepts : slots[i].accepts r = true) :
      slots[i].busyUntil.isSome = true := by
    obtain ⟨_, last, hlast, _⟩ := accepts_iff.mp haccepts
    simp [hlast]
  rw [hfind (shared slots) fun i hi => List.mem_range.mp (List.mem_of_mem_filter hi), shared,
    List.find?_filter]
  congr 1
  cases hslot : slots.findIdx? fun slot => slot.accepts r with
  | none =>
    rw [List.find?_eq_none]
    intro i hi
    have hi := List.mem_range.mp hi
    have hrefuses := List.findIdx?_eq_none_iff.mp hslot slots[i] (List.getElem_mem hi)
    simp [hi, hrefuses]
  | some i =>
    obtain ⟨hi, haccepts, hfirst⟩ := List.findIdx?_eq_some_iff_getElem.mp hslot
    rw [List.find?_range_eq_some]
    refine ⟨by simp [hi, haccepts, hbusy hi haccepts], List.mem_range.mpr hi, fun j hj => ?_⟩
    simp [hj.trans hi, hfirst j hj]

def withPool (s : Storage) : Storage × List Nat := (s, shared s.slots)

theorem place?_eq (config : CompileConfig) (s : Storage) (r : Request) :
    place? config s.withPool r = some (s.place config r).withPool := by
  unfold place? place withPool
  dsimp only
  split
  · rfl
  · split
    · rw [search?_shared]
      cases hslot : s.slots.findIdx? fun slot => slot.accepts r with
      | none =>
        have hpool := shared_append s.slots (.ofRequest s.slots.length r (some r.lastUse))
        simp only [Option.bind_eq_bind, Option.bind_some, bind, hpool]
        rfl
      | some i =>
        have hlt := (List.findIdx?_eq_some_iff_getElem.mp hslot).1
        simp only [Option.bind_eq_bind, Option.bind_some, change?, hlt, if_true, bind,
          shared_join hslot]
        rfl
    · have hpool := shared_append s.slots (.ofRequest s.slots.length r none)
      simp only [bind, hpool]
      rw [if_neg (by simp [Slot.ofRequest]), List.append_nil]

theorem allocate?_eq (config : CompileConfig) (requests : List Request) :
    allocate? config requests = some (allocate config requests) := by
  have hfold : requests.foldlM (place? config) (withPool {}) =
      some (requests.foldl (place config) {}).withPool := by
    refine foldlM_prefix (fun requests => (requests.foldl (place config) {}).withPool)
      fun before r after _ => ?_
    rw [place?_eq, List.foldl_append]
    rfl
  have hnew : (({}, []) : Storage × List Nat) = withPool {} := rfl
  rw [allocate?, hnew, hfold]
  rfl

theorem Tallied.aliasedCount?_eq (hs : s.Tallied) : s.aliasedCount? = some s.aliasedCount := by
  have hread : ∀ a ∈ s.allocations, (match a.binding with
      | .aliased i => (s.slots[i]?).map fun slot => decide (1 < slot.residents)
      | _ => some false) = some (match a.binding with
      | .aliased i => (s.slots[i]?).any fun slot => 1 < slot.residents
      | _ => false) := by
    intro a ha
    cases hbinding : a.binding with
    | external | dedicated => rfl
    | aliased i =>
      have hlt := hs.within i (mem_bound.mpr ⟨a, ha, by rw [hbinding]; rfl⟩)
      simp [hlt]
  simp only [aliasedCount?, mapM_eq_some hread, Option.bind_eq_bind, Option.bind_some,
    List.count, List.countP_map, Option.pure_def, aliasedCount]
  refine congrArg some (List.countP_congr fun a _ => ?_)
  cases h : a.binding <;> simp [h]

end Storage

/-! ### The pieces of a plan -/

/-- What a plan is laid out from: cells, their devices, the routes and the waves of step numbers. -/
structure Draft where
  net : Netlist
  devices : List Device
  routing : Routing
  waves : List (List Nat)

namespace Draft

variable (d : Draft)

def size : Nat := d.net.cells.length

def order : List Nat := d.waves.flatten

def step? (i : Nat) : Option Step :=
  if i < d.size then (d.net.cells[i]?).map fun cell => .node cell.id
  else some (.transfer (i - d.size))

/-- The port whose output a transfer copies, and the cell that has it. -/
def copied? (c : Crossing) : Option (Cell × OutputPort) := do
  let cell ← d.net.cells[c.source]?
  let port ← cell.outputs[c.output]?
  return (cell, port)

def transfer? (c : Crossing) : Option Transfer := do
  let (cell, port) ← d.copied? c
  let origin ← d.devices[c.source]?
  return { source := cell.id
           output := c.output
           origin
           target := c.target
           type := port.type
           size := port.size
           label := cell.name ++ "." ++ port.name ++ "->" ++ c.target.text }

/-- Where the input at the end of an edge reads, which passes through a transfer or does not. -/
def input? (e : DataEdge) (via : Option Nat) : Option ((NodeId × Nat) × Source) := do
  let source ← d.net.cells[e.source]?
  let sink ← d.net.cells[e.sink]?
  return ((sink.id, e.input), (via.map Source.transfer).getD (.output source.id e.output))

def gate? (e : GateEdge) : Option (NodeId × Source) := do
  let source ← d.net.cells[e.source]?
  let sink ← d.net.cells[e.sink]?
  return (sink.id, .output source.id e.output)

def positions? : Option (List Nat) :=
  d.order.zipIdx.foldlM (fun table entry => change? table entry.1 fun _ => entry.2)
    (List.replicate d.order.length 0)

/-- A use and the position at which it reads. -/
def mark? (positions : List Nat) (u : Use) : Option (Use × Nat) :=
  (positions[u.reader]?).map (u, ·)

/-- The last position at which an output of the step at `position` is read, or `position`. -/
def lastMark (marks : List (Use × Nat)) (step output position : Nat) : Nat :=
  ((marks.filter fun (u, _) => u.producer == step && u.output == output).map Prod.snd).foldl max
    position

def resources? (i : Nat) : Option (List (Nat × Lifetime × Device × Nat)) :=
  if i < d.size then do
    let cell ← d.net.cells[i]?
    let device ← d.devices[i]?
    return cell.outputs.zipIdx.filterMap fun (port, output) =>
      if port.type = .resource then some (output, port.lifetime, device, port.size) else none
  else do
    let c ← d.routing.transfers[i - d.size]?
    let (_, port) ← d.copied? c
    return if port.type = .resource then
      [(0, if port.lifetime = .transient then .transient else .product, c.target, port.size)]
    else []

def requests? (marks : List (Use × Nat)) (i position : Nat) : Option (List Request) := do
  let producer ← d.step? i
  let resources ← d.resources? i
  return resources.map fun (output, lifetime, device, size) =>
    { producer, output, lifetime, device, size
      firstUse := position
      lastUse := lastMark marks i output position }

/-- Put a cell into the group of its number, which is new if no group is the cell's. -/
def join? (groups : List (List Cell)) (cell : Cell) : Option (List (List Cell)) :=
  match groups.findIdx? fun g => g.head?.any cell.shares with
  | some i => change? groups i (· ++ [cell])
  | none => change? (groups ++ [[]]) groups.length (· ++ [cell])

def groups? : Option (List Group) := do
  let cells ← (d.order.filter (· < d.size)).mapM fun i => d.net.cells[i]?
  let groups ← cells.foldlM join? []
  return groups.map fun members =>
    { type := (members.head?.map Cell.type).getD ⟨0⟩
      params := (members.head?.map Cell.params).getD []
      members := members.map Cell.id }

def placement (inputs : List ((NodeId × Nat) × Source)) (gates : List (NodeId × Source))
    (cell : Cell) (device : Device) : Placement where
  node := cell.id
  device := device
  inputs := (List.range cell.inputs.length).map fun input => inputs.lookup (cell.id, input)
  gate := gates.lookup cell.id

/-- The plan, and how many transients are reported to share a slot. -/
def plan? (config : CompileConfig) : Option (Plan × Nat) := do
  let transfers ← d.routing.transfers.mapM d.transfer?
  let inputs ← (d.net.data.zip d.routing.via).mapM fun pair => d.input? pair.1 pair.2
  let gates ← d.net.gates.mapM d.gate?
  let positions ← d.positions?
  let marks ← (d.routing.uses d.net).mapM (mark? positions)
  let requests ← d.order.zipIdx.mapM fun entry => d.requests? marks entry.1 entry.2
  let storage ← Storage.allocate? config requests.flatten
  let groups ← d.groups?
  let waves ← d.waves.mapM fun wave => wave.mapM d.step?
  let placements := d.net.cells.zipWith (placement inputs gates) d.devices
  return ({ waves, placements, transfers, storage, groups }, ← storage.aliasedCount?)

/-- The draft that a schedule leaves. -/
def ofSchedule (s : Schedule) : Draft :=
  ⟨s.layout.net, s.layout.devices, .ofLayout s.layout, s.waves⟩

end Draft

/-- A schedule whose layout has a device for every cell. -/
structure Schedule.Filled (s : Schedule) : Prop extends s.Valid where
  length_devices : s.layout.devices.length = s.layout.net.cells.length

namespace Draft

variable {s : Schedule} {config : CompileConfig} {i : Nat}

theorem step?_eq (s : Schedule) (i : Nat) : (ofSchedule s).step? i = some (s.stepOf i) := by
  by_cases hi : i < s.layout.net.cells.length
  · have hstep := Schedule.stepOf_cell (s := s) hi
    rw [Schedule.nodeOf_eq (List.getElem?_eq_getElem hi)] at hstep
    simp [step?, size, ofSchedule, hi, hstep]
  · have hstep : s.stepOf i = .transfer (i - s.layout.net.cells.length) := if_neg hi
    simp [step?, size, ofSchedule, hi, hstep]

theorem device?_eq (hs : s.Filled) (hi : i < s.layout.net.cells.length) :
    (ofSchedule s).devices[i]? = some (s.layout.deviceOf i) := by
  simp [ofSchedule, Layout.deviceOf, hs.length_devices, hi]

theorem exists_copied (hs : s.Filled) {c : Crossing} (hc : c ∈ s.layout.transfers) :
    ∃ cell port, (ofSchedule s).copied? c = some (cell, port) ∧
      c.source < s.layout.net.cells.length ∧ s.cell? c.source = some cell ∧
      s.outputPort? c.source c.output = some port := by
  obtain ⟨e, he, hcross⟩ := Layout.mem_transfers.mp hc
  obtain ⟨_, rfl⟩ := Layout.crossing?_eq_some.mp hcross
  obtain ⟨source, sink, port, _, hsource, _, hport, _⟩ := hs.sound.data e he
  have hcell : s.cell? e.source = some source := hsource
  refine ⟨source, port, ?_, (hs.sound.data_lt he).1, hcell, ?_⟩
  · simp [copied?, ofSchedule, hsource, hport]
  · rw [Schedule.outputPort?, hcell, Option.bind_some, hport]

theorem transfers?_eq (hs : s.Filled) :
    s.layout.transfers.mapM (ofSchedule s).transfer? = some s.transfers := by
  refine mapM_eq_some fun c hc => ?_
  obtain ⟨cell, port, hcopied, hlt, hcell, hport⟩ := exists_copied hs hc
  simp [transfer?, hcopied, device?_eq hs hlt, hcell, hport, Schedule.nodeOf]

theorem inputs?_eq (hs : s.Filled) :
    (s.layout.net.data.zip (ofSchedule s).routing.via).mapM (fun pair =>
        (ofSchedule s).input? pair.1 pair.2) =
      some (s.layout.net.data.map fun e => ((s.nodeOf e.sink, e.input), s.sourceOf e)) := by
  have hzip : s.layout.net.data.zip (ofSchedule s).routing.via = _ := Routing.zip_via s.layout
  have hedge : ∀ pair ∈ s.layout.net.data.map fun e => (e, s.layout.route e),
      (ofSchedule s).input? pair.1 pair.2 =
        some ((s.nodeOf pair.1.sink, pair.1.input), s.sourceOf pair.1) := by
    intro pair hpair
    obtain ⟨e, he, rfl⟩ := List.mem_map.mp hpair
    obtain ⟨source, sink, _, _, hsource, hsink, _⟩ := hs.sound.data e he
    rw [Schedule.sourceOf, Schedule.nodeOf_eq hsource, Schedule.nodeOf_eq hsink]
    cases hroute : s.layout.route e <;> simp [input?, ofSchedule, hsource, hsink]
  rw [hzip, mapM_eq_some hedge, List.map_map]
  rfl

theorem gates?_eq (hs : s.Filled) : s.layout.net.gates.mapM (ofSchedule s).gate? =
    some (s.layout.net.gates.map fun e =>
      (s.nodeOf e.sink, .output (s.nodeOf e.source) e.output)) := by
  refine mapM_eq_some fun e he => ?_
  obtain ⟨source, sink, port, hsource, hsink, _⟩ := hs.sound.gates e he
  simp [gate?, ofSchedule, hsource, hsink, Schedule.nodeOf_eq hsource, Schedule.nodeOf_eq hsink]

theorem lookup_map {α κ γ : Type*} [BEq κ] (key : α → κ) (value : α → γ) (l : List α) (k : κ) :
    (l.map fun a => (key a, value a)).lookup k = (l.find? fun a => k == key a).map value := by
  induction l with
  | nil => rfl
  | cons a l ih =>
    rw [List.map_cons, List.lookup_cons, ih, List.find?_cons]
    cases k == key a <;> rfl

/-- Entering positions in order writes the place of each number in the order. -/
theorem foldlM_positions {m : Nat} {order : List Nat} (hlt : ∀ i ∈ order, i < m)
    (hnodup : order.Nodup) (k : Nat) (f : Nat → Nat) :
    (order.zipIdx k).foldlM (fun table entry => change? table entry.1 fun _ => entry.2)
        (tabulate m f) =
      some (tabulate m fun i => if i ∈ order then k + order.idxOf i else f i) := by
  induction order generalizing k f with
  | nil => simp
  | cons i order ih =>
    obtain ⟨hi, hnodup⟩ := List.nodup_cons.mp hnodup
    rw [List.zipIdx_cons, List.foldlM_cons, change?_tabulate (hlt i List.mem_cons_self)]
    refine (ih (fun j hj => hlt j (List.mem_cons_of_mem i hj)) hnodup _ _).trans ?_
    refine congrArg some (tabulate_congr fun j _ => ?_)
    by_cases hj : j = i
    · simp [hj, hi]
    · rw [List.idxOf_cons_ne order (Ne.symm hj)]
      simp [hj, Nat.add_assoc, Nat.add_comm 1]

theorem positions?_eq (hs : s.Filled) :
    (ofSchedule s).positions? = some (tabulate s.layout.stepCount s.order.idxOf) := by
  have hlength : s.order.length = s.layout.stepCount := by
    rw [hs.order_perm.length_eq, List.length_range]
  have horder : (ofSchedule s).order = s.order := rfl
  rw [positions?, horder, replicate_eq_tabulate, hlength,
    foldlM_positions (fun i hi => hs.mem_order.mp hi) hs.order_nodup]
  refine congrArg some (tabulate_congr fun i hi => ?_)
  rw [if_pos (hs.mem_order.mpr hi), Nat.zero_add]

theorem marks?_eq (hs : s.Filled) :
    ((ofSchedule s).routing.uses s.layout.net).mapM
        (mark? (tabulate s.layout.stepCount s.order.idxOf)) =
      some (s.layout.uses.map fun u => (u, s.order.idxOf u.reader)) := by
  have huses : (ofSchedule s).routing.uses s.layout.net = s.layout.uses :=
    Routing.uses_ofLayout s.layout
  rw [huses]
  refine mapM_eq_some fun u hu => ?_
  rw [mark?, tabulate_getElem? (Layout.uses_lt hs.sound hu).2]
  rfl

theorem lastMark_eq (order : List Nat) (uses : List Use) (step output position : Nat) :
    lastMark (uses.map fun u => (u, order.idxOf u.reader)) step output position =
      Schedule.lastUse order uses step output position := by
  rw [lastMark, List.filter_map, List.map_map, Schedule.lastUse]
  rfl

theorem resources?_eq (hs : s.Filled) (hi : i < s.layout.stepCount) :
    (ofSchedule s).resources? i = some (s.resources i) := by
  rcases Schedule.cell_or_transfer hi with hcell | ⟨t, ht, rfl⟩
  · have hlt : i < s.layout.net.cells.length := hcell
    rw [resources?, if_pos (show i < (ofSchedule s).size from hcell), device?_eq hs hlt,
      Schedule.resources, if_pos hcell]
    simp [ofSchedule, Schedule.cell?, hlt]
  · have hget := List.getElem?_eq_getElem ht
    obtain ⟨cell, port, hcopied, _, _, hport⟩ := exists_copied hs (List.getElem_mem ht)
    have hnot : ¬s.layout.size + t < s.layout.size := by omega
    have hread : (ofSchedule s).routing.transfers[s.layout.size + t - (ofSchedule s).size]? =
        some s.layout.transfers[t] := by
      rw [← hget]
      exact congrArg (fun k => s.layout.transfers[k]?) (Nat.add_sub_cancel_left _ _)
    rw [resources?, if_neg (show ¬s.layout.size + t < (ofSchedule s).size from hnot), hread,
      Schedule.resources, if_neg hnot, Nat.add_sub_cancel_left, hget]
    simp [hcopied, hport]

theorem requests?_eq (hs : s.Filled) {marks : List (Use × Nat)}
    (hmarks : marks = s.layout.uses.map fun u => (u, s.order.idxOf u.reader)) :
    (s.order.zipIdx.mapM fun entry => (ofSchedule s).requests? marks entry.1 entry.2) =
      some (s.order.zipIdx.map fun entry =>
        (s.resources entry.1).map (s.requestOf entry.1 entry.2)) := by
  refine mapM_eq_some fun entry hentry => ?_
  have hlt : entry.1 < s.layout.stepCount :=
    hs.mem_order.mp (List.mem_of_getElem? (List.mem_zipIdx_iff_getElem?.mp hentry))
  simp only [requests?, step?_eq, resources?_eq hs hlt, Option.bind_eq_bind, Option.bind_some,
    hmarks, lastMark_eq]
  rfl

theorem modify_concat {α : Type*} (l : List α) (a : α) (f : α → α) :
    (l ++ [a]).modify l.length f = l ++ [f a] := by
  induction l with
  | nil => rfl
  | cons b l ih => simpa using ih

theorem join?_eq (groups : List (List Cell)) (cell : Cell) :
    join? groups cell = some (Schedule.join groups cell) := by
  unfold join? Schedule.join
  cases h : groups.findIdx? fun g => g.head?.any cell.shares with
  | some i => exact if_pos (List.findIdx?_eq_some_iff_findIdx_eq.mp h).1
  | none =>
    dsimp only
    rw [change?, if_pos (by simp), modify_concat]
    rfl

theorem groups?_eq (s : Schedule) : (ofSchedule s).groups? = some s.groups := by
  have hcells (order : List Nat) :
      (order.filter (· < s.layout.size)).mapM (fun i => s.layout.net.cells[i]?) =
        some (order.filterMap s.cell?) := by
    induction order with
    | nil => rfl
    | cons i order ih =>
      by_cases hi : i < s.layout.size
      · obtain ⟨cell, hcell⟩ : ∃ cell, s.cell? i = some cell := ⟨_, List.getElem?_eq_getElem hi⟩
        have hget : s.layout.net.cells[i]? = some cell := hcell
        rw [List.filter_cons_of_pos (by simpa using hi), List.mapM_cons, ih,
          List.filterMap_cons_some hcell, hget]
        rfl
      · have hcell : s.cell? i = none := List.getElem?_eq_none (Nat.le_of_not_lt hi)
        rw [List.filter_cons_of_neg (by simpa using hi), ih, List.filterMap_cons_none hcell]
  have hjoin (cells : List Cell) : cells.foldlM join? [] = some (cells.foldl Schedule.join []) := by
    have hpure : join? = fun groups cell => pure (Schedule.join groups cell) := by
      funext groups cell
      exact join?_eq groups cell
    rw [hpure]
    exact List.foldlM_pure
  have hread : ((ofSchedule s).order.filter (· < (ofSchedule s).size)).mapM
      (fun i => (ofSchedule s).net.cells[i]?) = some (s.order.filterMap s.cell?) := hcells s.order
  simp only [groups?, hread, hjoin, Option.bind_eq_bind, Option.bind_some, Option.pure_def]
  rfl

theorem placements_eq (hs : s.Filled) :
    s.layout.net.cells.zipWith
      (placement (s.layout.net.data.map fun e => ((s.nodeOf e.sink, e.input), s.sourceOf e))
        (s.layout.net.gates.map fun e =>
          (s.nodeOf e.sink, .output (s.nodeOf e.source) e.output)))
      s.layout.devices = s.placements := by
  refine List.ext_getElem (by simp [Schedule.placements, hs.length_devices]) fun i hi _ => ?_
  have hi : i < s.layout.net.cells.length := by simpa [hs.length_devices] using hi
  have hlt : i < s.layout.devices.length := hs.length_devices ▸ hi
  have hdevice : s.layout.devices[i] = s.layout.deviceOf i := by simp [Layout.deviceOf, hlt]
  have hnode := Schedule.nodeOf_eq (List.getElem?_eq_getElem hi)
  have hsink {j : Nat} (hj : j < s.layout.net.cells.length) :
      (s.layout.net.cells[i].id == s.nodeOf j) = (j == i) := by
    rw [← hnode, Bool.eq_iff_iff, beq_iff_eq, beq_iff_eq]
    exact ⟨fun h => (hs.nodeOf_inj hi hj h).symm, fun h => h ▸ rfl⟩
  simp only [Schedule.placements, placement, List.getElem_map, List.getElem_zipWith,
    List.getElem_zipIdx, hdevice, lookup_map, Nat.zero_add]
  congr 1
  · refine List.map_congr_left fun input _ => congrArg _ (List.find?_congr fun e he => ?_)
    rw [← hsink (hs.sound.data_lt he).2, BEq.comm (a := e.input)]
    rfl
  · exact congrArg _ (List.find?_congr fun e he => hsink (hs.sound.gate_lt he).2)

/-- Laid out from tables, the plan of a schedule is the plan of the schedule. -/
theorem plan?_eq (hs : s.Filled) (config : CompileConfig) :
    (ofSchedule s).plan? config =
      some (s.plan config, (s.plan config).storage.aliasedCount) := by
  have hwaves : (ofSchedule s).waves.mapM (fun wave => wave.mapM (ofSchedule s).step?) =
      some (s.waves.map fun wave => wave.map s.stepOf) :=
    mapM_eq_some fun wave _ => mapM_eq_some fun i _ => step?_eq s i
  have htransfers : (ofSchedule s).routing.transfers.mapM (ofSchedule s).transfer? =
    some s.transfers := transfers?_eq hs
  have hinputs : ((ofSchedule s).net.data.zip (ofSchedule s).routing.via).mapM _ = _ :=
    inputs?_eq hs
  have hgates : (ofSchedule s).net.gates.mapM (ofSchedule s).gate? = _ := gates?_eq hs
  have hmarks : ((ofSchedule s).routing.uses (ofSchedule s).net).mapM _ = _ := marks?_eq hs
  have hrequests : (ofSchedule s).order.zipIdx.mapM _ = _ := requests?_eq hs rfl
  have hplacements : (ofSchedule s).net.cells.zipWith _ (ofSchedule s).devices = _ :=
    placements_eq hs
  have hshared := (Storage.allocate_tallied config s.requests).aliasedCount?_eq
  have hflat : (s.order.zipIdx.map fun entry =>
      (s.resources entry.1).map (s.requestOf entry.1 entry.2)).flatten = s.requests := by
    rw [← List.flatMap_def]
    rfl
  simp only [plan?, htransfers, hinputs, hgates, positions?_eq hs, hmarks, hrequests, hflat,
    Storage.allocate?_eq, groups?_eq, hwaves, hplacements, hshared, Option.bind_eq_bind,
    Option.bind_some, Option.pure_def]
  rfl

end Draft

end FrameGraph
