import FrameGraph.Proofs.Plan.Steps

/-! What the steps of a plan read. A plan names a source for every connected input and
gate, and a transfer reads the output that it copies. The sources are laid out edge by
edge from the routes, as are the uses that order the steps; here the two are shown to
agree: a step reads a source exactly when the layout has a use of it. -/

namespace FrameGraph

/-- The step and the output behind a source. A transfer has one output. -/
def Source.origin : Source → Step × Nat
  | output node index => (.node node, index)
  | transfer number => (.transfer number, 0)

theorem Source.origin_inj {a b : Source} (h : a.origin = b.origin) : a = b := by
  cases a <;> cases b <;> simp_all [origin]

/-- A step reads a source: a node through an input or its gate, a transfer the output it copies. -/
inductive Plan.Reads (p : Plan) : Step → Source → Prop
  | input {id : NodeId} {input : Nat} {source : Source}
      (h : p.inputSource? id input = some source) : Reads p (.node id) source
  | gate {id : NodeId} {source : Source} (h : p.gateSource? id = some source) :
      Reads p (.node id) source
  | transfer {t : Nat} {transfer : Transfer} (h : p.transfers[t]? = some transfer) :
      Reads p (.transfer t) (.output transfer.source transfer.output)

namespace Schedule

variable {s : Schedule} {config : CompileConfig} {i : Nat}

/-! ### Placements -/

def placementOf (s : Schedule) (cell : Cell) (i : Nat) : Placement where
  node := cell.id
  device := s.layout.deviceOf i
  inputs := (List.range cell.inputs.length).map fun input =>
    (s.layout.net.feeder? i input).map s.sourceOf
  gate := (s.layout.net.gates.find? fun e => e.sink == i).map fun e =>
    .output (s.nodeOf e.source) e.output

theorem placements_getElem? (i : Nat) :
    (s.plan config).placements[i]? =
      (s.layout.net.cells[i]?).map fun cell => s.placementOf cell i := by
  change (s.layout.net.cells.zipIdx.map fun pair => s.placementOf pair.1 pair.2)[i]? = _
  rw [List.getElem?_map, List.getElem?_zipIdx, Option.map_map]
  simp [Function.comp_def]

theorem Valid.placement?_nodeOf (hv : s.Valid) {cell : Cell}
    (hcell : s.layout.net.cells[i]? = some cell) :
    (s.plan config).placement? (s.nodeOf i) = some (s.placementOf cell i) := by
  have hplace : (s.plan config).placements[i]? = some (s.placementOf cell i) := by
    rw [placements_getElem?, hcell]
    rfl
  obtain ⟨hlt, hget⟩ := List.getElem?_eq_some_iff.mp hplace
  refine List.find?_eq_some_iff_getElem.mpr ⟨?_, i, hlt, hget, fun j hj => ?_⟩
  · exact beq_iff_eq.mpr (nodeOf_eq hcell).symm
  · obtain ⟨other, hother⟩ : ∃ other, s.layout.net.cells[j]? = some other :=
      ⟨_, List.getElem?_eq_getElem (hj.trans (Netlist.lt_of_getElem? hcell))⟩
    have hplace' : (s.plan config).placements[j] = s.placementOf other j := by
      refine Option.some.inj ((List.getElem?_eq_getElem (hj.trans hlt)).symm.trans ?_)
      rw [placements_getElem?, hother]
      rfl
    have hne : s.nodeOf j ≠ s.nodeOf i := fun h => Nat.ne_of_lt hj
      (hv.nodeOf_inj (Netlist.lt_of_getElem? hother) (Netlist.lt_of_getElem? hcell) h)
    rw [hplace', Bool.not_eq_true', beq_eq_false_iff_ne]
    rwa [nodeOf_eq hother] at hne

/-- A plan places the cells and nothing else. -/
theorem cell_of_placement? {id : NodeId} {place : Placement}
    (h : (s.plan config).placement? id = some place) :
    ∃ i cell, s.layout.net.cells[i]? = some cell ∧ s.nodeOf i = id ∧
      place = s.placementOf cell i := by
  obtain ⟨i, hi⟩ := List.mem_iff_getElem?.mp (List.mem_of_find?_eq_some h)
  have hid : place.node = id := by simpa using List.find?_some h
  rw [placements_getElem?] at hi
  obtain ⟨cell, hcell, rfl⟩ := Option.map_eq_some_iff.mp hi
  exact ⟨i, cell, hcell, (nodeOf_eq hcell).trans hid, rfl⟩

theorem Valid.deviceOf?_nodeOf (hv : s.Valid) (hi : i < s.layout.size) :
    (s.plan config).deviceOf? (s.nodeOf i) = some (s.layout.deviceOf i) := by
  rw [Plan.deviceOf?, hv.placement?_nodeOf (List.getElem?_eq_getElem hi)]
  rfl

theorem exists_cell_of_deviceOf? {id : NodeId} {d : Device}
    (h : (s.plan config).deviceOf? id = some d) : ∃ i < s.layout.size, s.nodeOf i = id := by
  obtain ⟨place, hplace, _⟩ := Option.map_eq_some_iff.mp h
  obtain ⟨i, cell, hcell, hid, _⟩ := cell_of_placement? hplace
  exact ⟨i, Netlist.lt_of_getElem? hcell, hid⟩

/-! ### Sources -/

/-- A search finds whatever meets its condition, where no two do. -/
theorem find?_eq_some_of_single {α : Type*} {p : α → Bool} {l : List α}
    (h : l.Pairwise fun a b => ¬(p a = true ∧ p b = true)) {a : α} :
    l.find? p = some a ↔ a ∈ l ∧ p a = true := by
  constructor
  · intro ha
    exact ⟨List.mem_of_find?_eq_some ha, List.find?_some ha⟩
  · rintro ⟨hmem, ha⟩
    induction l with
    | nil => cases hmem
    | cons b l ih =>
      obtain ⟨hb, hl⟩ := List.pairwise_cons.mp h
      rcases List.mem_cons.mp hmem with rfl | hmem
      · exact List.find?_cons_of_pos ha
      · have hneg : ¬p b = true := fun hpb => hb a hmem ⟨hpb, ha⟩
        rw [List.find?_cons_of_neg hneg]
        exact ih hl hmem

theorem Valid.feeder?_eq_some (hv : s.Valid) {input : Nat} {e : DataEdge} :
    s.layout.net.feeder? i input = some e ↔
      e ∈ s.layout.net.data ∧ e.sink = i ∧ e.input = input := by
  rw [Netlist.feeder?, find?_eq_some_of_single, Bool.and_eq_true, beq_iff_eq, beq_iff_eq]
  apply hv.sound.single_data.imp
  intro e f hne h
  simp only [Bool.and_eq_true, beq_iff_eq] at h
  exact hne ⟨h.1.1.trans h.2.1.symm, h.1.2.trans h.2.2.symm⟩

theorem Valid.gate_find? (hv : s.Valid) {e : GateEdge} :
    (s.layout.net.gates.find? fun e => e.sink == i) = some e ↔
      e ∈ s.layout.net.gates ∧ e.sink = i := by
  rw [find?_eq_some_of_single, beq_iff_eq]
  apply hv.sound.single_gate.imp
  intro e f hne h
  simp only [beq_iff_eq] at h
  exact hne (h.1.trans h.2.symm)

theorem Valid.inputSource?_eq_some (hv : s.Valid) {id : NodeId} {input : Nat} {source : Source} :
    (s.plan config).inputSource? id input = some source ↔
      ∃ e ∈ s.layout.net.data, s.nodeOf e.sink = id ∧ e.input = input ∧
        s.sourceOf e = source := by
  rw [Plan.inputSource?, Option.join_eq_some_iff, Option.bind_eq_some_iff]
  constructor
  · rintro ⟨place, hplace, hinput⟩
    obtain ⟨i, cell, hcell, rfl, rfl⟩ := cell_of_placement? hplace
    obtain ⟨k, hk, hsource⟩ := Option.map_eq_some_iff.mp ((List.getElem?_map).symm.trans hinput)
    obtain rfl : input = k := by
      obtain ⟨_, hget⟩ := List.getElem?_eq_some_iff.mp hk
      exact (List.getElem_range _).symm.trans hget
    obtain ⟨e, he, rfl⟩ := Option.map_eq_some_iff.mp hsource
    obtain ⟨hmem, rfl, rfl⟩ := hv.feeder?_eq_some.mp he
    exact ⟨e, hmem, rfl, rfl, rfl⟩
  · rintro ⟨e, he, rfl, rfl, rfl⟩
    obtain ⟨_, cell, _, expected, _, hcell, _, hexpected, _⟩ := hv.sound.data e he
    refine ⟨_, hv.placement?_nodeOf hcell, ?_⟩
    have hlt := (List.getElem?_eq_some_iff.mp hexpected).1
    change ((List.range cell.inputs.length).map fun input =>
      (s.layout.net.feeder? e.sink input).map s.sourceOf)[e.input]? = _
    rw [List.getElem?_map, List.getElem?_range hlt, Option.map_some,
      hv.feeder?_eq_some.mpr ⟨he, rfl, rfl⟩, Option.map_some]

theorem Valid.gateSource?_eq_some (hv : s.Valid) {id : NodeId} {source : Source} :
    (s.plan config).gateSource? id = some source ↔
      ∃ e ∈ s.layout.net.gates, s.nodeOf e.sink = id ∧
        .output (s.nodeOf e.source) e.output = source := by
  rw [Plan.gateSource?, Option.bind_eq_some_iff]
  constructor
  · rintro ⟨place, hplace, hgate⟩
    obtain ⟨i, cell, hcell, rfl, rfl⟩ := cell_of_placement? hplace
    obtain ⟨e, he, rfl⟩ := Option.map_eq_some_iff.mp hgate
    obtain ⟨hmem, rfl⟩ := hv.gate_find?.mp he
    exact ⟨e, hmem, rfl, rfl⟩
  · rintro ⟨e, he, rfl, rfl⟩
    obtain ⟨_, cell, _, _, hcell, _⟩ := hv.sound.gates e he
    refine ⟨_, hv.placement?_nodeOf hcell, ?_⟩
    change (s.layout.net.gates.find? fun f => f.sink == e.sink).map _ = _
    rw [hv.gate_find?.mpr ⟨he, rfl⟩, Option.map_some]

theorem transfers_getElem?_eq_some {t : Nat} {transfer : Transfer}
    (h : (s.plan config).transfers[t]? = some transfer) :
    ∃ c, s.layout.transfers[t]? = some c ∧ transfer.source = s.nodeOf c.source ∧
      transfer.output = c.output := by
  obtain ⟨c, hc, rfl⟩ := Option.map_eq_some_iff.mp ((List.getElem?_map).symm.trans h)
  exact ⟨c, hc, rfl, rfl⟩

theorem sourceOf_direct {e : DataEdge} (h : s.layout.route e = none) :
    s.sourceOf e = .output (s.nodeOf e.source) e.output := by
  rw [sourceOf, h]

theorem sourceOf_eq_transfer {e : DataEdge} {t : Nat} :
    s.sourceOf e = .transfer t ↔ s.layout.route e = some t := by
  unfold sourceOf
  cases s.layout.route e with
  | none => simp
  | some u => simp

/-! ### Reads and uses -/

/-- The transfer that an edge passes through copies the output from which the edge leads. -/
theorem exists_transfer (config : CompileConfig) {e : DataEdge} (he : e ∈ s.layout.net.data)
    {t : Nat} (ht : s.layout.route e = some t) :
    ∃ transfer, (s.plan config).transfers[t]? = some transfer ∧
      transfer.source = s.nodeOf e.source ∧ transfer.output = e.output := by
  obtain ⟨c, hcross, hc⟩ := (Layout.route_eq_some he).mp ht
  obtain ⟨_, rfl⟩ := Layout.crossing?_eq_some.mp hcross
  have hget : (s.plan config).transfers[t]? = (s.layout.transfers[t]?).map _ := List.getElem?_map
  rw [hc] at hget
  exact ⟨_, hget, rfl, rfl⟩

/-- A step reads a source exactly when the layout has a use of it. -/
theorem Valid.reads_iff (hv : s.Valid) {reader : Step} {source : Source} :
    (s.plan config).Reads reader source ↔ ∃ u ∈ s.layout.uses, s.stepOf u.reader = reader ∧
      source.origin = (s.stepOf u.producer, u.output) := by
  constructor
  · intro h
    cases h with
    | input h =>
      obtain ⟨e, he, rfl, _, rfl⟩ := hv.inputSource?_eq_some.mp h
      obtain ⟨hsource, hsink⟩ := hv.sound.data_lt he
      cases hroute : s.layout.route e with
      | none =>
        refine ⟨_, Layout.mem_uses.mpr (.inl ⟨e, he, hroute, rfl⟩), stepOf_cell hsink, ?_⟩
        rw [sourceOf_direct hroute, stepOf_cell hsource]
        rfl
      | some t =>
        refine ⟨_, Layout.mem_uses.mpr (.inr (.inl ⟨e, he, t, hroute, .inr rfl⟩)),
          stepOf_cell hsink, ?_⟩
        rw [sourceOf_eq_transfer.mpr hroute, stepOf_transfer]
        rfl
    | gate h =>
      obtain ⟨e, he, rfl, rfl⟩ := hv.gateSource?_eq_some.mp h
      obtain ⟨hsource, hsink⟩ := hv.sound.gate_lt he
      refine ⟨_, Layout.mem_uses.mpr (.inr (.inr ⟨e, he, rfl⟩)), stepOf_cell hsink, ?_⟩
      rw [stepOf_cell hsource]
      rfl
    | transfer h =>
      obtain ⟨c, hc, hsource, houtput⟩ := transfers_getElem?_eq_some h
      obtain ⟨e, he, hcross⟩ := Layout.mem_transfers.mp (List.mem_of_getElem? hc)
      have hroute := (Layout.route_eq_some he).mpr ⟨c, hcross, hc⟩
      obtain ⟨_, rfl⟩ := Layout.crossing?_eq_some.mp hcross
      refine ⟨_, Layout.mem_uses.mpr (.inr (.inl ⟨e, he, _, hroute, .inl rfl⟩)),
        stepOf_transfer _, ?_⟩
      rw [stepOf_cell (hv.sound.data_lt he).1, hsource, houtput]
      rfl
  · rintro ⟨u, hu, rfl, horigin⟩
    rcases Layout.mem_uses.mp hu with ⟨e, he, hroute, rfl⟩ | ⟨e, he, t, hroute, rfl | rfl⟩ |
      ⟨e, he, rfl⟩
    · obtain ⟨hsource, hsink⟩ := hv.sound.data_lt he
      rw [stepOf_cell hsource] at horigin
      obtain rfl : source = s.sourceOf e :=
        Source.origin_inj (horigin.trans (by rw [sourceOf_direct hroute]; rfl))
      rw [stepOf_cell hsink]
      exact .input (hv.inputSource?_eq_some.mpr ⟨e, he, rfl, rfl, rfl⟩)
    · obtain ⟨hsource, _⟩ := hv.sound.data_lt he
      obtain ⟨transfer, htransfer, htsource, htoutput⟩ := exists_transfer config he hroute
      rw [stepOf_cell hsource] at horigin
      obtain rfl : source = .output transfer.source transfer.output :=
        Source.origin_inj (horigin.trans (by rw [htsource, htoutput]; rfl))
      rw [stepOf_transfer]
      exact .transfer htransfer
    · obtain ⟨_, hsink⟩ := hv.sound.data_lt he
      rw [stepOf_transfer] at horigin
      obtain rfl : source = s.sourceOf e :=
        Source.origin_inj (horigin.trans (by rw [sourceOf_eq_transfer.mpr hroute]; rfl))
      rw [stepOf_cell hsink]
      exact .input (hv.inputSource?_eq_some.mpr ⟨e, he, rfl, rfl, rfl⟩)
    · obtain ⟨hsource, hsink⟩ := hv.sound.gate_lt he
      rw [stepOf_cell hsource] at horigin
      obtain rfl : source = .output (s.nodeOf e.source) e.output :=
        Source.origin_inj (horigin.trans rfl)
      rw [stepOf_cell hsink]
      exact .gate (hv.gateSource?_eq_some.mpr ⟨e, he, rfl, rfl⟩)

theorem Valid.exists_source (hv : s.Valid) {u : Use} (hu : u ∈ s.layout.uses) :
    ∃ source : Source, source.origin = (s.stepOf u.producer, u.output) := by
  rcases Layout.mem_uses.mp hu with ⟨e, he, _, rfl⟩ | ⟨e, he, t, _, rfl | rfl⟩ | ⟨e, he, rfl⟩
  · exact ⟨.output _ _, by rw [stepOf_cell (hv.sound.data_lt he).1]; rfl⟩
  · exact ⟨.output _ _, by rw [stepOf_cell (hv.sound.data_lt he).1]; rfl⟩
  · exact ⟨.transfer t, by rw [stepOf_transfer]; rfl⟩
  · exact ⟨.output _ _, by rw [stepOf_cell (hv.sound.gate_lt he).1]; rfl⟩

end Schedule

end FrameGraph
