import FrameGraph.Plan.Compile
import FrameGraph.Proofs.Plan.Inference
import FrameGraph.Proofs.Plan.Layering

/-! How a netlist is scheduled. `Scheduled` lists the ways in which scheduling can end,
one for each check, with the checks that came before. Of a sound netlist the edges lie
within the cells and those of a layout within its steps. A transfer subdivides edges:
placing it halfway between the ranks of the cells it joins gives the steps a rank
whenever the cells have one, so the second sort never fails. -/

namespace FrameGraph

namespace Netlist

/-- Cells have distinct numbers, edges join ports of matching types, and no input or gate has two
producers. -/
structure Sound (net : Netlist) : Prop where
  ids_nodup : (net.cells.map Cell.id).Nodup
  data : ∀ e ∈ net.data, ∃ source sink port expected, net.cells[e.source]? = some source ∧
    net.cells[e.sink]? = some sink ∧ source.outputs[e.output]? = some port ∧
    sink.inputs[e.input]? = some expected ∧ port.type = expected.type
  gates : ∀ e ∈ net.gates, ∃ source sink port, net.cells[e.source]? = some source ∧
    net.cells[e.sink]? = some sink ∧ source.outputs[e.output]? = some port ∧ port.type = .bool
  single_data : net.data.Pairwise fun e f => ¬(e.sink = f.sink ∧ e.input = f.input)
  single_gate : net.gates.Pairwise fun e f => e.sink ≠ f.sink

variable {net : Netlist}

theorem joined_dependencies {a b : Nat} :
    Waves.Joined net.dependencies a b ↔
      (∃ e ∈ net.data, e.source = a ∧ e.sink = b) ∨ ∃ e ∈ net.gates, e.source = a ∧ e.sink = b := by
  simp [Waves.Joined, dependencies]

theorem lt_of_getElem? {i : Nat} {cell : Cell} (h : net.cells[i]? = some cell) :
    i < net.cells.length :=
  (List.getElem?_eq_some_iff.mp h).1

theorem Sound.data_lt (hs : net.Sound) {e : DataEdge} (he : e ∈ net.data) :
    e.source < net.cells.length ∧ e.sink < net.cells.length := by
  obtain ⟨_, _, _, _, hsource, hsink, _⟩ := hs.data e he
  exact ⟨lt_of_getElem? hsource, lt_of_getElem? hsink⟩

theorem Sound.gate_lt (hs : net.Sound) {e : GateEdge} (he : e ∈ net.gates) :
    e.source < net.cells.length ∧ e.sink < net.cells.length := by
  obtain ⟨_, _, _, hsource, hsink, _⟩ := hs.gates e he
  exact ⟨lt_of_getElem? hsource, lt_of_getElem? hsink⟩

theorem Sound.dependencies_within (hs : net.Sound) :
    Waves.Within net.cells.length net.dependencies := by
  intro e he
  rcases joined_dependencies.mp he with ⟨f, hf, hsource, hsink⟩ | ⟨f, hf, hsource, hsink⟩
  · rw [← hsource, ← hsink]
    exact hs.data_lt hf
  · rw [← hsource, ← hsink]
    exact hs.gate_lt hf

theorem mem_producers {p i : Nat} :
    p ∈ net.producers i ↔ ∃ e ∈ net.data, e.source = p ∧ e.sink = i := by
  simp only [producers, List.mem_map, List.mem_filter, beq_iff_eq]
  exact ⟨fun ⟨e, ⟨he, hsink⟩, hsource⟩ => ⟨e, he, hsource, hsink⟩,
    fun ⟨e, he, hsource, hsink⟩ => ⟨e, ⟨he, hsink⟩, hsource⟩⟩

/-! ### The ends of scheduling -/

inductive Scheduled (net : Netlist) (fallback : Device) : Except CompileError Schedule → Prop
  | missing {cell : Cell} {port : InputPort} (h : net.missing? = some (cell, port)) :
      Scheduled net fallback (.error (.missingInput cell.name port.name))
  | cyclic {cycle : List Nat} (complete : net.missing? = none)
      (h : Waves.sort net.cells.length net.dependencies = .error cycle) :
      Scheduled net fallback (.error (net.cycleError cycle))
  | conflict {first : List (List Nat)} {c : Devices.Conflict} (complete : net.missing? = none)
      (sorted : Waves.sort net.cells.length net.dependencies = .ok first)
      (h : Devices.infer net fallback first.flatten = .error c) :
      Scheduled net fallback (.error
        (.deviceConflict ((net.cells[c.cell]?.map Cell.name).getD "") c.devices))
  | tangled {first : List (List Nat)} {devices : List Device} {cycle : List Nat}
      (complete : net.missing? = none)
      (sorted : Waves.sort net.cells.length net.dependencies = .ok first)
      (inferred : Devices.infer net fallback first.flatten = .ok devices)
      (h : Waves.sort (Layout.stepCount ⟨net, devices⟩) (Layout.stepEdges ⟨net, devices⟩) =
        .error cycle) :
      Scheduled net fallback (.error (net.cycleError cycle))
  | ok {first : List (List Nat)} {devices : List Device} {waves : List (List Nat)}
      (complete : net.missing? = none)
      (sorted : Waves.sort net.cells.length net.dependencies = .ok first)
      (inferred : Devices.infer net fallback first.flatten = .ok devices)
      (h : Waves.sort (Layout.stepCount ⟨net, devices⟩) (Layout.stepEdges ⟨net, devices⟩) =
        .ok waves) :
      Scheduled net fallback (.ok ⟨⟨net, devices⟩, waves⟩)

theorem schedule_scheduled (net : Netlist) (fallback : Device) :
    net.Scheduled fallback (net.schedule fallback) := by
  unfold schedule
  cases hmissing : net.missing? with
  | some pair => exact .missing hmissing
  | none =>
    cases hfirst : Waves.sort net.cells.length net.dependencies with
    | error cycle => exact .cyclic hmissing hfirst
    | ok first =>
      cases hinfer : Devices.infer net fallback first.flatten with
      | error c =>
        simp only [Except.mapError, bind, Except.bind, hinfer]
        exact .conflict hmissing hfirst hinfer
      | ok devices =>
        cases hsecond : Waves.sort (Layout.stepCount ⟨net, devices⟩)
            (Layout.stepEdges ⟨net, devices⟩) with
        | error cycle =>
          simp only [Except.mapError, bind, Except.bind, hinfer, hsecond]
          exact .tangled hmissing hfirst hinfer hsecond
        | ok waves =>
          simp only [Except.mapError, bind, Except.bind, hinfer, hsecond]
          exact .ok hmissing hfirst hinfer hsecond

theorem Scheduled.schedule_eq {net : Netlist} {fallback : Device}
    {result : Except CompileError Schedule} (h : net.Scheduled fallback result) :
    net.schedule fallback = result := by
  unfold schedule
  cases h with
  | missing h => simp [h, throw, throwThe, MonadExceptOf.throw, bind, Except.bind]
  | cyclic complete h => simp [complete, h, Except.mapError, bind, Except.bind]
  | conflict complete sorted h => simp [complete, sorted, h, Except.mapError, bind, Except.bind]
  | tangled complete sorted inferred h =>
    simp [complete, sorted, inferred, h, Except.mapError, bind, Except.bind]
  | ok complete sorted inferred h =>
    simp [complete, sorted, inferred, h, Except.mapError, bind, Except.bind, pure, Except.pure]

end Netlist

namespace Layout

variable {l : Layout}

theorem crossing?_eq_some {e : DataEdge} {c : Crossing} :
    l.crossing? e = some c ↔ l.deviceOf e.source ≠ l.deviceOf e.sink ∧
      c = ⟨e.source, e.output, l.deviceOf e.sink⟩ := by
  unfold crossing?
  split
  · next h => simp [h]
  · next h => simp [h, eq_comm]

theorem mem_transfers {c : Crossing} :
    c ∈ l.transfers ↔ ∃ e ∈ l.net.data, l.crossing? e = some c := by
  rw [transfers, List.mem_eraseDups, List.mem_filterMap]

theorem transfers_nodup (l : Layout) : l.transfers.Nodup := nodup_eraseDups _

/-- An edge passes through the transfer of its crossing. -/
theorem route_eq_some {e : DataEdge} (he : e ∈ l.net.data) {t : Nat} :
    l.route e = some t ↔ ∃ c, l.crossing? e = some c ∧ l.transfers[t]? = some c := by
  simp only [route, Option.map_eq_some_iff]
  refine exists_congr fun c => and_congr_right fun hc => ?_
  have hlt := List.idxOf_lt_length_of_mem (mem_transfers.mpr ⟨e, he, hc⟩)
  constructor
  · rintro rfl
    rw [List.getElem?_eq_getElem hlt, List.getElem_idxOf hlt]
  · intro ht
    obtain ⟨htlt, hget⟩ := List.getElem?_eq_some_iff.mp ht
    rw [← hget]
    exact l.transfers_nodup.idxOf_getElem t htlt

/-- What is used: the source of an edge by its sink, or by a transfer which its sink uses. -/
theorem mem_uses {u : Use} :
    u ∈ l.uses ↔
      (∃ e ∈ l.net.data, l.route e = none ∧ u = ⟨e.source, e.output, e.sink⟩) ∨
      (∃ e ∈ l.net.data, ∃ t, l.route e = some t ∧
        (u = ⟨e.source, e.output, l.size + t⟩ ∨ u = ⟨l.size + t, 0, e.sink⟩)) ∨
      ∃ e ∈ l.net.gates, u = ⟨e.source, e.output, e.sink⟩ := by
  simp only [uses, List.mem_append, List.mem_flatMap, List.mem_map, usesOf_transfers, ← or_assoc]
  refine or_congr ?_ (exists_congr fun e => and_congr_right fun _ => eq_comm)
  rw [← exists_or]
  apply exists_congr
  intro e
  rw [← and_or_left]
  apply and_congr_right
  intro _
  cases h : l.route e <;> simp

theorem joined_stepEdges {a b : Nat} :
    Waves.Joined l.stepEdges a b ↔ ∃ u ∈ l.uses, u.producer = a ∧ u.reader = b := by
  simp [Waves.Joined, stepEdges]

theorem lt_of_route {e : DataEdge} (he : e ∈ l.net.data) {t : Nat} (ht : l.route e = some t) :
    t < l.transfers.length := by
  obtain ⟨c, _, hc⟩ := (route_eq_some he).mp ht
  exact (List.getElem?_eq_some_iff.mp hc).1

theorem uses_lt (hs : l.net.Sound) {u : Use} (hu : u ∈ l.uses) :
    u.producer < l.stepCount ∧ u.reader < l.stepCount := by
  unfold stepCount
  rcases mem_uses.mp hu with ⟨e, he, _, rfl⟩ | ⟨e, he, t, ht, hu⟩ | ⟨e, he, rfl⟩
  · have := hs.data_lt he
    simp only [size]
    omega
  · have := hs.data_lt he
    have := lt_of_route he ht
    rcases hu with rfl | rfl <;> simp only [size] <;> omega
  · have := hs.gate_lt he
    simp only [size]
    omega

theorem stepEdges_within (hs : l.net.Sound) : Waves.Within l.stepCount l.stepEdges := by
  intro e he
  obtain ⟨u, hu, hp, hr⟩ := joined_stepEdges.mp he
  rw [← hp, ← hr]
  exact uses_lt hs hu

/-! ### The second sort -/

/-- A rank of the steps from one of the cells: a transfer lies halfway after its source. -/
def stepRank (l : Layout) (rank : Nat → Nat) (i : Nat) : Nat :=
  if i < l.size then 2 * rank i
  else ((l.transfers[i - l.size]?).map fun c => 2 * rank c.source + 1).getD 0

theorem stepRank_cell {rank : Nat → Nat} {i : Nat} (hi : i < l.net.cells.length) :
    l.stepRank rank i = 2 * rank i := if_pos hi

theorem stepRank_transfer {rank : Nat → Nat} {e : DataEdge} (he : e ∈ l.net.data) {t : Nat}
    (ht : l.route e = some t) : l.stepRank rank (l.size + t) = 2 * rank e.source + 1 := by
  obtain ⟨c, hcross, hc⟩ := (route_eq_some he).mp ht
  rw [stepRank, if_neg (by omega), Nat.add_sub_cancel_left, hc, (crossing?_eq_some.mp hcross).2]
  rfl

theorem stepRank_isRank (hs : l.net.Sound) {rank : Nat → Nat}
    (hrank : Waves.IsRank l.net.dependencies rank) :
    Waves.IsRank l.stepEdges (l.stepRank rank) := by
  have hdata {e : DataEdge} (he : e ∈ l.net.data) : rank e.source < rank e.sink :=
    hrank _ (Netlist.joined_dependencies.mpr (.inl ⟨e, he, rfl, rfl⟩))
  intro edge hedge
  obtain ⟨u, hu, hp, hr⟩ := joined_stepEdges.mp hedge
  rw [← hp, ← hr]
  rcases mem_uses.mp hu with ⟨e, he, _, rfl⟩ | ⟨e, he, t, ht, hu⟩ | ⟨e, he, rfl⟩
  · rw [stepRank_cell (hs.data_lt he).1, stepRank_cell (hs.data_lt he).2]
    have := hdata he
    omega
  · have := hdata he
    rcases hu with rfl | rfl
    · rw [stepRank_cell (hs.data_lt he).1, stepRank_transfer he ht]
      omega
    · rw [stepRank_cell (hs.data_lt he).2, stepRank_transfer he ht]
      omega
  · rw [stepRank_cell (hs.gate_lt he).1, stepRank_cell (hs.gate_lt he).2]
    have : rank e.source < rank e.sink :=
      hrank _ (Netlist.joined_dependencies.mpr (.inr ⟨e, he, rfl, rfl⟩))
    omega

/-- Steps can be sorted whenever the cells can, whatever their devices. -/
theorem sort_steps (hs : l.net.Sound) {first : List (List Nat)}
    (h : Waves.sort l.net.cells.length l.net.dependencies = .ok first) :
    ∃ waves, Waves.sort l.stepCount l.stepEdges = .ok waves := by
  obtain ⟨rank, hrank⟩ := Waves.exists_rank hs.dependencies_within h
  exact (Waves.sort_ok_iff_rank (stepEdges_within hs)).mpr ⟨_, stepRank_isRank hs hrank⟩

end Layout

end FrameGraph
