import FrameGraph.Proofs.Plan.Schedule

/-! From step numbers to steps. Sorting works on numbers, cells first and transfers after
them; a plan speaks of nodes and transfers by name. The steps of a schedule have
distinct names, so what holds of the waves of numbers holds of the waves of the plan:
the order lists every step once, producers come before their readers, and a wave is
numbered by the longest chain of uses that ends in it. -/

namespace FrameGraph

namespace Plan

def Precedes (p : Plan) (a b : Step) : Prop :=
  ∃ j k : Nat, j < k ∧ p.order[j]? = some a ∧ p.order[k]? = some b

end Plan

/-- A schedule of a sound netlist, as sorting leaves it. -/
structure Schedule.Valid (s : Schedule) : Prop where
  sound : s.layout.net.Sound
  sorted : Waves.sort s.layout.stepCount s.layout.stepEdges = .ok s.waves

theorem Netlist.schedule_valid {net : Netlist} {fallback : Device} {s : Schedule} (hs : net.Sound)
    (h : net.schedule fallback = .ok s) : s.layout.net = net ∧ s.Valid := by
  have hends := net.schedule_scheduled fallback
  rw [h] at hends
  cases hends with
  | ok complete sorted inferred hsorted => exact ⟨rfl, hs, hsorted⟩

namespace Schedule

variable {s : Schedule} {config : CompileConfig} {i j : Nat}

/-! ### Names of steps -/

theorem stepOf_cell (hi : i < s.layout.size) : s.stepOf i = .node (s.nodeOf i) := if_pos hi

theorem stepOf_transfer (t : Nat) : s.stepOf (s.layout.size + t) = .transfer t := by
  rw [stepOf, if_neg (by omega), Nat.add_sub_cancel_left]

/-- A step number is that of a cell or of a transfer. -/
theorem cell_or_transfer (hi : i < s.layout.stepCount) :
    i < s.layout.size ∨ ∃ t < s.layout.transfers.length, i = s.layout.size + t := by
  by_cases h : i < s.layout.size
  · exact .inl h
  · unfold Layout.stepCount at hi
    exact .inr ⟨i - s.layout.size, by omega, by omega⟩

theorem nodeOf_eq {cell : Cell} (h : s.layout.net.cells[i]? = some cell) :
    s.nodeOf i = cell.id := by
  rw [nodeOf, cell?, h]
  rfl

theorem Valid.nodeOf_inj (hv : s.Valid) (hi : i < s.layout.size) (hj : j < s.layout.size)
    (h : s.nodeOf i = s.nodeOf j) : i = j := by
  have hnode {k : Nat} (hk : k < s.layout.size) :
      (s.layout.net.cells.map Cell.id)[k]? = some (s.nodeOf k) := by
    rw [List.getElem?_map, nodeOf_eq (List.getElem?_eq_getElem hk), List.getElem?_eq_getElem hk]
    rfl
  have hlt : i < (s.layout.net.cells.map Cell.id).length := by rwa [List.length_map]
  exact (List.getElem?_inj hlt hv.sound.ids_nodup).mp (by rw [hnode hi, hnode hj, h])

theorem Valid.stepOf_inj (hv : s.Valid) (hi : i < s.layout.stepCount)
    (hj : j < s.layout.stepCount) (h : s.stepOf i = s.stepOf j) : i = j := by
  rcases cell_or_transfer hi with hi | ⟨t, _, rfl⟩ <;>
    rcases cell_or_transfer hj with hj | ⟨u, _, rfl⟩
  · rw [stepOf_cell hi, stepOf_cell hj] at h
    exact hv.nodeOf_inj hi hj (Step.node.inj h)
  · rw [stepOf_cell hi, stepOf_transfer] at h
    cases h
  · rw [stepOf_cell hj, stepOf_transfer] at h
    cases h
  · rw [stepOf_transfer, stepOf_transfer] at h
    rw [Step.transfer.inj h]

/-! ### The order -/

theorem Valid.within (hv : s.Valid) : Waves.Within s.layout.stepCount s.layout.stepEdges :=
  Layout.stepEdges_within hv.sound

theorem Valid.order_perm (hv : s.Valid) : s.order.Perm (List.range s.layout.stepCount) :=
  Waves.flatten_perm hv.within hv.sorted

theorem Valid.mem_order (hv : s.Valid) : i ∈ s.order ↔ i < s.layout.stepCount :=
  hv.order_perm.mem_iff.trans List.mem_range

theorem Valid.order_nodup (hv : s.Valid) : s.order.Nodup :=
  hv.order_perm.nodup_iff.mpr List.nodup_range

theorem Valid.lt_of_order (hv : s.Valid) {k : Nat} (h : s.order[k]? = some i) :
    i < s.layout.stepCount :=
  hv.mem_order.mp (List.mem_of_getElem? h)

theorem Valid.position_unique (hv : s.Valid) {j k : Nat} (hj : s.order[j]? = some i)
    (hk : s.order[k]? = some i) : j = k := by
  obtain ⟨hlt, _⟩ := List.getElem?_eq_some_iff.mp hj
  exact (List.getElem?_inj hlt hv.order_nodup).mp (hj.trans hk.symm)

theorem plan_order : (s.plan config).order = s.order.map s.stepOf := by
  rw [Plan.order, order, List.map_flatten]
  rfl

theorem plan_waves_getElem? (k : Nat) :
    (s.plan config).waves[k]? = (s.waves[k]?).map fun wave => wave.map s.stepOf :=
  List.getElem?_map

theorem Valid.plan_order_nodup (hv : s.Valid) : (s.plan config).order.Nodup := by
  rw [plan_order]
  refine List.Nodup.map_on (fun i hi j hj h => ?_) hv.order_nodup
  exact hv.stepOf_inj (hv.mem_order.mp hi) (hv.mem_order.mp hj) h

/-- A step number stands in the order where its step stands in the order of the plan. -/
theorem Valid.plan_order_getElem? (hv : s.Valid) (hi : i < s.layout.stepCount) {k : Nat} :
    (s.plan config).order[k]? = some (s.stepOf i) ↔ s.order[k]? = some i := by
  rw [plan_order, List.getElem?_map, Option.map_eq_some_iff]
  constructor
  · rintro ⟨j, hj, hstep⟩
    rw [hj, hv.stepOf_inj (hv.lt_of_order hj) hi hstep]
  · intro h
    exact ⟨i, h, rfl⟩

theorem Valid.mem_plan_order (hv : s.Valid) {step : Step} :
    step ∈ (s.plan config).order ↔ ∃ i < s.layout.stepCount, s.stepOf i = step := by
  rw [plan_order, List.mem_map]
  exact exists_congr fun i => and_congr_left fun _ => hv.mem_order

/-- A step that is read stands before its reader. -/
theorem Valid.use_position (hv : s.Valid) {u : Use} (hu : u ∈ s.layout.uses) {k : Nat}
    (hk : s.order[k]? = some u.reader) : ∃ j < k, s.order[j]? = some u.producer := by
  obtain ⟨hlt, hget⟩ := List.getElem?_eq_some_iff.mp hk
  have hsplit : s.waves.flatten = s.order.take k ++ u.reader :: s.order.drop (k + 1) := by
    change s.order = _
    rw [← hget, ← List.drop_eq_getElem_cons hlt, List.take_append_drop]
  have hmem : u.producer ∈ s.order.take k :=
    Waves.source_mem_of_split hv.within hv.sorted hsplit
      (Layout.joined_stepEdges.mpr ⟨u, hu, rfl, rfl⟩)
  obtain ⟨j, hj, hproducer⟩ := List.mem_take_iff_getElem.mp hmem
  exact ⟨j, by omega, by rw [← hproducer]; exact List.getElem?_eq_getElem _⟩

theorem Valid.exists_position (hv : s.Valid) (hi : i < s.layout.stepCount) :
    ∃ k : Nat, s.order[k]? = some i :=
  List.mem_iff_getElem?.mp (hv.mem_order.mpr hi)

theorem plan_transfers_length (config : CompileConfig) :
    (s.plan config).transfers.length = s.layout.transfers.length := List.length_map _

/-! ### Waves -/

def Uses (s : Schedule) (a b : Step) : Prop :=
  ∃ u ∈ s.layout.uses, s.stepOf u.producer = a ∧ s.stepOf u.reader = b

theorem Valid.precedes_of_uses (hv : s.Valid) {a b : Step} (h : s.Uses a b) :
    (s.plan config).Precedes a b := by
  obtain ⟨u, hu, rfl, rfl⟩ := h
  obtain ⟨hproducer, hreader⟩ := Layout.uses_lt hv.sound hu
  obtain ⟨k, hk⟩ := hv.exists_position hreader
  obtain ⟨j, hjk, hj⟩ := hv.use_position hu hk
  exact ⟨j, k, hjk, (hv.plan_order_getElem? hproducer).mpr hj,
    (hv.plan_order_getElem? hreader).mpr hk⟩

theorem Valid.chainTo_iff (hv : s.Valid) (hi : i < s.layout.stepCount) {k : Nat} :
    ChainTo s.Uses k (s.stepOf i) ↔ ChainTo (Waves.Joined s.layout.stepEdges) k i := by
  constructor
  · generalize hstep : s.stepOf i = step
    intro h
    induction h generalizing i with
    | start => exact .start i
    | snoc _ hr ih =>
      obtain ⟨u, hu, rfl, hreader⟩ := hr
      obtain ⟨hproducer, hlt⟩ := Layout.uses_lt hv.sound hu
      obtain rfl := hv.stepOf_inj hlt hi (hreader.trans hstep.symm)
      exact .snoc (ih hproducer rfl) (Layout.joined_stepEdges.mpr ⟨u, hu, rfl, rfl⟩)
  · intro h
    apply h.map s.stepOf
    intro a b hr
    obtain ⟨u, hu, rfl, rfl⟩ := Layout.joined_stepEdges.mp hr
    exact ⟨u, hu, rfl, rfl⟩

/-- The wave of a step is the length of the longest chain of uses that ends in it. -/
theorem Valid.mem_plan_wave_iff (hv : s.Valid) {k : Nat} {step : Step} :
    (∃ wave, (s.plan config).waves[k]? = some wave ∧ step ∈ wave) ↔
      step ∈ (s.plan config).order ∧ IsGreatest {m | ChainTo s.Uses m step} k := by
  have hwave {i : Nat} := Waves.mem_wave_iff hv.within hv.sorted (k := k) (i := i)
  have hset (i : Nat) (hi : i < s.layout.stepCount) : {m | ChainTo s.Uses m (s.stepOf i)} =
      {m | ChainTo (Waves.Joined s.layout.stepEdges) m i} :=
    Set.ext fun m => hv.chainTo_iff hi
  constructor
  · rintro ⟨wave, hk, hmem⟩
    rw [plan_waves_getElem?] at hk
    obtain ⟨numbers, hnumbers, rfl⟩ := Option.map_eq_some_iff.mp hk
    obtain ⟨i, hi, rfl⟩ := List.mem_map.mp hmem
    obtain ⟨hlt, hgreatest⟩ := hwave.mp ⟨numbers, hnumbers, hi⟩
    rw [hset i hlt]
    exact ⟨hv.mem_plan_order.mpr ⟨i, hlt, rfl⟩, hgreatest⟩
  · rintro ⟨hmem, hgreatest⟩
    obtain ⟨i, hlt, rfl⟩ := hv.mem_plan_order.mp hmem
    rw [hset i hlt] at hgreatest
    obtain ⟨numbers, hnumbers, hi⟩ := hwave.mpr ⟨hlt, hgreatest⟩
    refine ⟨numbers.map s.stepOf, ?_, List.mem_map_of_mem hi⟩
    rw [plan_waves_getElem?, hnumbers]
    rfl

/-- No step of a wave depends on another of the same wave. -/
theorem Valid.not_transGen (hv : s.Valid) {wave : List Step} (hwave : wave ∈ (s.plan config).waves)
    {a b : Step} (ha : a ∈ wave) (hb : b ∈ wave) : ¬Relation.TransGen s.Uses a b := by
  obtain ⟨k, hk⟩ := List.mem_iff_getElem?.mp hwave
  obtain ⟨_, hchain, _⟩ := hv.mem_plan_wave_iff.mp ⟨wave, hk, ha⟩
  obtain ⟨_, _, hmax⟩ := hv.mem_plan_wave_iff.mp ⟨wave, hk, hb⟩
  intro hab
  obtain ⟨m, hkm, hm⟩ := hchain.transGen hab
  exact absurd (hmax hm) (Nat.not_le_of_lt hkm)

/-- No layering that respects the uses has fewer layers than there are waves. -/
theorem Valid.length_waves_le (hv : s.Valid) (layer : Step → Nat) {count : Nat}
    (hcount : ∀ step ∈ (s.plan config).order, layer step < count)
    (hlayer : ∀ a b, s.Uses a b → layer a < layer b) :
    (s.plan config).waves.length ≤ count := by
  rcases Nat.eq_zero_or_pos (s.plan config).waves.length with hzero | hpos
  · omega
  · obtain ⟨numbers, hnumbers⟩ : ∃ numbers, s.waves[s.waves.length - 1]? = some numbers := by
      refine ⟨_, List.getElem?_eq_getElem ?_⟩
      have hlength : (s.plan config).waves.length = s.waves.length := List.length_map _
      omega
    obtain ⟨i, hi⟩ := List.exists_mem_of_ne_nil _
      (Waves.wave_ne_nil hv.within hv.sorted (List.mem_of_getElem? hnumbers))
    have hlast : (s.plan config).waves[(s.plan config).waves.length - 1]? =
        some (numbers.map s.stepOf) := by
      have hlength : (s.plan config).waves.length = s.waves.length := List.length_map _
      rw [plan_waves_getElem?, hlength, hnumbers]
      rfl
    obtain ⟨hmem, hchain, _⟩ :=
      hv.mem_plan_wave_iff.mp ⟨_, hlast, List.mem_map_of_mem (f := s.stepOf) hi⟩
    have hrank := hchain.le_rank layer hlayer
    have hlt := hcount _ hmem
    omega

/-- A wave lists nodes in the order of their cells, then transfers by number. -/
theorem Valid.plan_wave_eq (hv : s.Valid) {numbers : List Nat} (h : numbers ∈ s.waves) :
    numbers.map s.stepOf =
      (((List.range s.layout.size).filter numbers.contains).map s.nodeOf).map .node ++
        ((List.range s.layout.transfers.length).filter fun t =>
          numbers.contains (s.layout.size + t)).map .transfer := by
  have hcells : ((List.range s.layout.size).filter numbers.contains).map s.stepOf =
      (((List.range s.layout.size).filter numbers.contains).map s.nodeOf).map .node := by
    rw [List.map_map]
    refine List.map_congr_left fun i hi => stepOf_cell ?_
    exact List.mem_range.mp (List.mem_filter.mp hi).1
  have htransfers (l : List Nat) : (l.map (s.layout.size + ·)).map s.stepOf = l.map .transfer := by
    rw [List.map_map]
    exact List.map_congr_left fun t _ => stepOf_transfer t
  conv_lhs => rw [Waves.wave_eq_filter hv.within hv.sorted h, Layout.stepCount, List.range_add]
  rw [List.filter_append, List.map_append, List.filter_map, hcells, htransfers]
  rfl

/-! ### The first wave -/

theorem transfer_used {t : Nat} (ht : t < s.layout.transfers.length) :
    ∃ u ∈ s.layout.uses, u.reader = s.layout.size + t := by
  obtain ⟨e, he, hcross⟩ := Layout.mem_transfers.mp (List.getElem_mem ht)
  have hroute := (Layout.route_eq_some he).mpr ⟨_, hcross, List.getElem?_eq_getElem ht⟩
  exact ⟨_, Layout.mem_uses.mpr (.inr (.inl ⟨e, he, t, hroute, .inl rfl⟩)), rfl⟩

def isFed (s : Schedule) (i : Nat) : Bool := s.layout.uses.any fun u => u.reader == i

theorem isFed_eq_false : s.isFed i = false ↔ ∀ a, ¬Waves.Joined s.layout.stepEdges a i := by
  rw [isFed, List.any_eq_false]
  constructor
  · intro h a hjoined
    obtain ⟨u, hu, _, hreader⟩ := Layout.joined_stepEdges.mp hjoined
    exact h u hu (beq_iff_eq.mpr hreader)
  · intro h u hu hreader
    exact h u.producer (Layout.joined_stepEdges.mpr ⟨u, hu, rfl, beq_iff_eq.mp hreader⟩)

theorem Valid.contains_first (hv : s.Valid) {numbers : List Nat}
    (hfirst : s.waves[0]? = some numbers) (hi : i < s.layout.stepCount) :
    numbers.contains i = !s.isFed i := by
  have hwave := Waves.mem_wave_iff hv.within hv.sorted (k := 0) (i := i)
  rw [hfirst, ChainTo.isGreatest_zero, ← isFed_eq_false] at hwave
  rw [Bool.eq_iff_iff, List.contains_iff_mem, Bool.not_eq_true']
  constructor
  · intro h
    exact (hwave.mp ⟨numbers, rfl, h⟩).2
  · intro h
    obtain ⟨wave, heq, hmem⟩ := hwave.mpr ⟨hi, h⟩
    exact Option.some.inj heq ▸ hmem

/-- The first wave is that of the cells that use nothing. -/
theorem Valid.first_wave (hv : s.Valid) (hsize : 0 < s.layout.size) :
    (s.plan config).waves.head? =
      some (((List.range s.layout.size).filter fun i => !s.isFed i).map fun i =>
        .node (s.nodeOf i)) := by
  have hle : s.layout.size ≤ s.layout.stepCount := Nat.le_add_right _ _
  have hne : s.waves ≠ [] := by
    intro hnil
    have hmem := hv.mem_order.mpr (Nat.lt_of_lt_of_le hsize hle)
    simp [order, hnil] at hmem
  obtain ⟨numbers, rest, hwaves⟩ := List.exists_cons_of_ne_nil hne
  have hfirst : s.waves[0]? = some numbers := by rw [hwaves]; rfl
  have hcells : (List.range s.layout.size).filter numbers.contains =
      (List.range s.layout.size).filter fun i => !s.isFed i :=
    List.filter_congr fun i hi =>
      hv.contains_first hfirst (Nat.lt_of_lt_of_le (List.mem_range.mp hi) hle)
  have htransfers : ((List.range s.layout.transfers.length).filter fun t =>
      numbers.contains (s.layout.size + t)) = [] := by
    apply List.filter_eq_nil_iff.mpr
    intro t ht
    have ht := List.mem_range.mp ht
    obtain ⟨u, hu, hreader⟩ := transfer_used ht
    rw [hv.contains_first hfirst (Nat.add_lt_add_left ht _)]
    simp only [isFed, Bool.not_eq_true, Bool.not_eq_false', List.any_eq_true, beq_iff_eq]
    exact ⟨u, hu, hreader⟩
  change (s.waves.map fun wave => wave.map s.stepOf).head? = _
  rw [hwaves, List.map_cons, List.head?_cons, hv.plan_wave_eq (by rw [hwaves]; simp), htransfers,
    hcells, List.map_nil, List.append_nil, List.map_map]
  rfl

end Schedule

end FrameGraph
