import Mathlib.Data.List.Forall2
import Mathlib.Logic.Equiv.Basic
import FrameGraph.Proofs.Plan.Relisting

/-! Transfers under other numbers. They are numbered in the order of the first edges that
need them, so listing the edges in another order permutes their numbers, and through them
the numbers of the steps beyond the cells. The sort of the steps is carried along: each
wave holds the same cells in the same places, then the same transfers. So two plans of the
same edges agree up to a permutation of the transfers, and are equal if their transfers
are in the same order. -/

namespace FrameGraph

/-! ### Permutations of places -/

/-- The numbers below `n` stay, and those from there on move as their distances from `n` do. -/
def beyond (n : Nat) (σ : Equiv.Perm Nat) : Equiv.Perm Nat where
  toFun i := if i < n then i else n + σ (i - n)
  invFun i := if i < n then i else n + σ.symm (i - n)
  left_inv i := by
    by_cases h : i < n
    · simp only [if_pos h]
    · have hge : ¬n + σ (i - n) < n := by omega
      simp only [if_neg h, if_neg hge, Nat.add_sub_cancel_left, σ.symm_apply_apply]
      omega
  right_inv i := by
    by_cases h : i < n
    · simp only [if_pos h]
    · have hge : ¬n + σ.symm (i - n) < n := by omega
      simp only [if_neg h, if_neg hge, Nat.add_sub_cancel_left, σ.apply_symm_apply]
      omega

theorem beyond_of_lt {n i : Nat} (σ : Equiv.Perm Nat) (h : i < n) : beyond n σ i = i := if_pos h

theorem beyond_add (n : Nat) (σ : Equiv.Perm Nat) (t : Nat) : beyond n σ (n + t) = n + σ t := by
  simp [beyond]

/-- The entries of a permuted list are found at permuted places. -/
theorem exists_places {α : Type*} {l l' : List α} (h : l'.Perm l) :
    ∃ σ : Equiv.Perm Nat, ∀ t : Nat, l'[σ t]? = l[t]? := by
  induction h with
  | nil => exact ⟨Equiv.refl _, fun _ => rfl⟩
  | cons a _ ih =>
    obtain ⟨σ, hσ⟩ := ih
    refine ⟨beyond 1 σ, fun t => ?_⟩
    cases t with
    | zero => rfl
    | succ t =>
      rw [Nat.add_comm t 1, beyond_add, Nat.add_comm, Nat.add_comm 1 t, List.getElem?_cons_succ,
        List.getElem?_cons_succ, hσ]
  | swap a b l =>
    refine ⟨Equiv.swap 0 1, fun t => ?_⟩
    match t with
    | 0 => simp
    | 1 => simp
    | t + 2 => rw [Equiv.swap_apply_of_ne_of_ne (by omega) (by omega)]; rfl
  | trans _ _ ih ih' =>
    obtain ⟨σ, hσ⟩ := ih
    obtain ⟨τ, hτ⟩ := ih'
    exact ⟨τ.trans σ, fun t => (hσ _).trans (hτ t)⟩

/-! ### Waves of permuted indices -/

namespace Waves

variable {n : Nat} {edges edges' : List Edge} {ρ : Equiv.Perm Nat}

/-- A permutation of the indices that takes the edges of one list to those of another. -/
structure Corresponds (ρ : Equiv.Perm Nat) (n : Nat) (edges edges' : List Edge) : Prop where
  joined : ∀ a b, Joined edges' (ρ a) (ρ b) ↔ Joined edges a b
  below : ∀ i, ρ i < n ↔ i < n

namespace Corresponds

theorem deep (h : Corresponds ρ n edges edges') (k i : Nat) :
    deep edges' k (ρ i) = deep edges k i := by
  rw [Bool.eq_iff_iff, deep_iff_chainTo, deep_iff_chainTo]
  constructor
  · intro hchain
    have hback := hchain.map ρ.symm (s := Joined edges) fun a b hab =>
      (h.joined _ _).mp (by rwa [ρ.apply_symm_apply, ρ.apply_symm_apply])
    rwa [ρ.symm_apply_apply] at hback
  · exact fun hchain => hchain.map ρ fun a b hab => (h.joined a b).mpr hab

theorem mem_level (h : Corresponds ρ n edges edges') {k i : Nat} :
    ρ i ∈ level n edges' k ↔ i ∈ level n edges k := by
  rw [Waves.mem_level, Waves.mem_level, h.below, h.deep, h.deep]

theorem level_perm (h : Corresponds ρ n edges edges') (k : Nat) :
    (level n edges' k).Perm ((level n edges k).map ρ) := by
  have hnodup (edges : List Edge) : (level n edges k).Nodup :=
    (level_sorted k).imp fun h => Nat.ne_of_lt h
  refine (List.perm_ext_iff_of_nodup (hnodup _) ((hnodup _).map ρ.injective)).mpr fun j => ?_
  obtain ⟨i, rfl⟩ := ρ.surjective j
  rw [h.mem_level, List.mem_map_of_injective ρ.injective]

theorem sort (h : Corresponds ρ n edges edges') (hw : Within n edges) (hw' : Within n edges')
    {waves waves' : List (List Nat)} (hsort : sort n edges = .ok waves)
    (hsort' : sort n edges' = .ok waves') :
    ∃ m, waves = (List.range m).map (level n edges) ∧
      waves' = (List.range m).map (level n edges') := by
  obtain ⟨m, rfl, hne, hshallow⟩ := sort_ok hw hsort
  obtain ⟨m', rfl, hne', hshallow'⟩ := sort_ok hw' hsort'
  have hmem {edges : List Edge} {k m : Nat} (hk : k < m) :
      level n edges k ∈ (List.range m).map (level n edges) :=
    List.mem_map_of_mem (List.mem_range.mpr hk)
  obtain hlt | rfl | hgt := Nat.lt_trichotomy m m'
  · have hperm := h.level_perm m
    rw [level_eq_nil hshallow] at hperm
    exact absurd hperm.eq_nil (hne' _ (hmem hlt))
  · exact ⟨m, rfl, rfl⟩
  · have hperm := h.level_perm m'
    rw [level_eq_nil hshallow'] at hperm
    exact absurd (List.map_eq_nil_iff.mp hperm.nil_eq.symm) (hne _ (hmem hgt))

/-- What is read of the indices below `a` and is the same of all others is read alike of
corresponding waves, for these have the same indices below `a` and as many others. -/
theorem level_map_eq {a b : Nat} {σ : Equiv.Perm Nat}
    (h : Corresponds (beyond a σ) (a + b) edges edges') {γ : Type*} {f f' : Nat → γ} {c : γ}
    (hfirst : ∀ i < a, f' i = f i) (hrest : ∀ i, a ≤ i → f i = c) (hrest' : ∀ i, a ≤ i → f' i = c)
    (k : Nat) : (level (a + b) edges' k).map f' = (level (a + b) edges k).map f := by
  let p (edges : List Edge) (i : Nat) : Bool := Waves.deep edges k i && !Waves.deep edges (k + 1) i
  have hsplit (edges : List Edge) : level (a + b) edges k =
      (List.range a).filter (p edges) ++ ((List.range b).map (a + ·)).filter (p edges) := by
    rw [level, List.range_add, List.filter_append]
  have hlow : (List.range a).filter (p edges') = (List.range a).filter (p edges) := by
    refine List.filter_congr fun i hi => ?_
    have hsame (m : Nat) : Waves.deep edges' m i = Waves.deep edges m i := by
      conv_lhs => rw [← beyond_of_lt σ (List.mem_range.mp hi)]
      exact h.deep m i
    simp only [p, hsame]
  have hlength := (h.level_perm k).length_eq
  rw [List.length_map, hsplit, hsplit, hlow, List.length_append, List.length_append,
    Nat.add_left_cancel_iff] at hlength
  have hconst {g : Nat → γ} (hg : ∀ i, a ≤ i → g i = c) (edges : List Edge) :
      (((List.range b).map (a + ·)).filter (p edges)).map g =
        List.replicate (((List.range b).map (a + ·)).filter (p edges)).length c := by
    refine List.map_eq_replicate_iff.mpr fun i hi => hg i ?_
    obtain ⟨t, _, rfl⟩ := List.mem_map.mp (List.mem_filter.mp hi).1
    exact Nat.le_add_right a t
  rw [hsplit, hsplit, List.map_append, List.map_append, hlow, hconst hrest', hconst hrest, hlength]
  congr 1
  exact List.map_congr_left fun i hi => hfirst i (List.mem_range.mp (List.mem_filter.mp hi).1)

end Corresponds

end Waves

/-! ### Names under other numbers -/

def Step.renumber (σ : Equiv.Perm Nat) : Step → Step
  | node id => .node id
  | transfer number => .transfer (σ number)

def Source.renumber (σ : Equiv.Perm Nat) : Source → Source
  | output node index => .output node index
  | transfer number => .transfer (σ number)

def Placement.renumber (σ : Equiv.Perm Nat) (place : Placement) : Placement :=
  { place with inputs := place.inputs.map fun input => input.map (Source.renumber σ) }

@[simp] theorem Source.renumber_refl : Source.renumber (Equiv.refl Nat) = id := by
  funext source
  cases source <;> rfl

@[simp] theorem Placement.renumber_refl : Placement.renumber (Equiv.refl Nat) = id := by
  funext place
  simp [renumber]

/-- Two plans that agree up to the numbers of their transfers. -/
structure Plan.Renumbered (σ : Equiv.Perm Nat) (p q : Plan) : Prop where
  transfers : ∀ t : Nat, q.transfers[σ t]? = p.transfers[t]?
  waves : List.Forall₂ (fun wave wave' => wave'.Perm (wave.map (Step.renumber σ))) p.waves q.waves
  position : ∀ (k : Nat) id, q.order[k]? = some (.node id) ↔ p.order[k]? = some (.node id)
  device : ∀ id, q.deviceOf? id = p.deviceOf? id
  gate : ∀ id, q.gateSource? id = p.gateSource? id
  input : ∀ id input, q.inputSource? id input = (p.inputSource? id input).map (Source.renumber σ)
  groups : q.groups = p.groups

namespace Schedule.Relisted

variable {s s' : Schedule}

theorem symm (h : s.Relisted s') : s'.Relisted s :=
  ⟨⟨h.net.cells.symm, h.net.data.symm, h.net.gates.symm⟩, h.devices.symm, h.valid', h.valid⟩

theorem size (h : s.Relisted s') : s'.layout.size = s.layout.size :=
  congrArg List.length h.net.cells

theorem deviceOf (h : s.Relisted s') : s'.layout.deviceOf = s.layout.deviceOf := by
  funext i
  rw [Layout.deviceOf, Layout.deviceOf, h.devices]

theorem cell? (h : s.Relisted s') : s'.cell? = s.cell? := by
  funext i
  rw [Schedule.cell?, Schedule.cell?, h.net.cells]

theorem nodeOf (h : s.Relisted s') : s'.nodeOf = s.nodeOf := by
  funext i
  rw [Schedule.nodeOf, Schedule.nodeOf, h.cell?]

theorem crossing? (h : s.Relisted s') : s'.layout.crossing? = s.layout.crossing? := by
  funext e
  simp only [Layout.crossing?, h.deviceOf]

/-- The same outputs are transferred to the same devices. -/
theorem transfers_perm (h : s.Relisted s') : s'.layout.transfers.Perm s.layout.transfers := by
  refine (List.perm_ext_iff_of_nodup s'.layout.transfers_nodup s.layout.transfers_nodup).mpr
    fun c => ?_
  simp only [Layout.mem_transfers, h.crossing?, h.net.data.mem_iff]

theorem stepCount (h : s.Relisted s') : s'.layout.stepCount = s.layout.stepCount := by
  rw [Layout.stepCount, Layout.stepCount, h.size, h.transfers_perm.length_eq]

end Schedule.Relisted

/-! ### Numbers of transfers -/

/-- Schedules of the same edges in another order, where `σ` takes the number of each transfer in the
first to its number in the second. -/
structure Schedule.Renumbered (σ : Equiv.Perm Nat) (s s' : Schedule) : Prop extends
    s.Relisted s' where
  places : ∀ t : Nat, s'.layout.transfers[σ t]? = s.layout.transfers[t]?

theorem Schedule.Relisted.exists_renumbered {s s' : Schedule} (h : s.Relisted s') :
    ∃ σ, s.Renumbered σ s' := by
  obtain ⟨σ, hσ⟩ := exists_places h.transfers_perm
  exact ⟨σ, h, hσ⟩

namespace Schedule.Renumbered

variable {s s' : Schedule} {σ : Equiv.Perm Nat}

theorem symm (h : s.Renumbered σ s') : s'.Renumbered σ.symm s where
  toRelisted := h.toRelisted.symm
  places t := by
    have hplace := h.places (σ.symm t)
    rw [σ.apply_symm_apply] at hplace
    exact hplace.symm

/-- An edge passes through the transfer of its crossing, whatever its number. -/
theorem route (h : s.Renumbered σ s') {e : DataEdge} (he : e ∈ s.layout.net.data) :
    s'.layout.route e = (s.layout.route e).map σ := by
  refine Option.ext fun u => ?_
  rw [Layout.route_eq_some (h.net.data.mem_iff.mpr he), Option.map_eq_some_iff, h.crossing?]
  obtain ⟨t, rfl⟩ := σ.surjective u
  simp only [h.places, Layout.route_eq_some he, σ.injective.eq_iff, exists_eq_right]

theorem below (h : s.Renumbered σ s') (i : Nat) :
    beyond s.layout.size σ i < s.layout.stepCount ↔ i < s.layout.stepCount := by
  by_cases hi : i < s.layout.size
  · rw [beyond_of_lt σ hi]
  · obtain ⟨t, rfl⟩ := Nat.exists_eq_add_of_le (Nat.le_of_not_lt hi)
    have hend : s'.layout.transfers[σ t]? = none ↔ s.layout.transfers[t]? = none := by rw [h.places]
    rw [List.getElem?_eq_none_iff, List.getElem?_eq_none_iff, h.transfers_perm.length_eq] at hend
    rw [beyond_add, Layout.stepCount, Nat.add_lt_add_iff_left, Nat.add_lt_add_iff_left]
    omega

/-- Steps that use one another do so under their other numbers. -/
theorem joined (h : s.Renumbered σ s') {a b : Nat}
    (hab : Waves.Joined s.layout.stepEdges a b) :
    Waves.Joined s'.layout.stepEdges (beyond s.layout.size σ a) (beyond s.layout.size σ b) := by
  have hcell {i : Nat} (hi : i < s.layout.size) : beyond s.layout.size σ i = i := beyond_of_lt σ hi
  obtain ⟨u, hu, rfl, rfl⟩ := Layout.joined_stepEdges.mp hab
  rw [Layout.joined_stepEdges]
  rcases Layout.mem_uses.mp hu with ⟨e, he, hroute, rfl⟩ | ⟨e, he, t, hroute, hu⟩ | ⟨e, he, rfl⟩
  · obtain ⟨hsource, hsink⟩ := h.valid.sound.data_lt he
    rw [hcell hsource, hcell hsink]
    have hroute' : s'.layout.route e = none := by rw [h.route he, hroute, Option.map_none]
    exact ⟨_, Layout.mem_uses.mpr (.inl ⟨e, h.net.data.mem_iff.mpr he, hroute', rfl⟩), rfl, rfl⟩
  · obtain ⟨hsource, hsink⟩ := h.valid.sound.data_lt he
    have hroute' : s'.layout.route e = some (σ t) := by rw [h.route he, hroute, Option.map_some]
    have hmem (u : Use) := fun hu => Layout.mem_uses (u := u).mpr
      (.inr (.inl ⟨e, h.net.data.mem_iff.mpr he, σ t, hroute', hu⟩))
    rw [h.size] at hmem
    rcases hu with rfl | rfl
    · rw [hcell hsource, beyond_add]
      exact ⟨_, hmem _ (.inl rfl), rfl, rfl⟩
    · rw [hcell hsink, beyond_add]
      exact ⟨_, hmem _ (.inr rfl), rfl, rfl⟩
  · obtain ⟨hsource, hsink⟩ := h.valid.sound.gate_lt he
    rw [hcell hsource, hcell hsink]
    exact ⟨_, Layout.mem_uses.mpr (.inr (.inr ⟨e, h.net.gates.mem_iff.mpr he, rfl⟩)), rfl, rfl⟩

theorem corresponds (h : s.Renumbered σ s') : Waves.Corresponds (beyond s.layout.size σ)
    s.layout.stepCount s.layout.stepEdges s'.layout.stepEdges := by
  refine ⟨fun a b => ⟨fun hab => ?_, h.joined⟩, h.below⟩
  have hback := h.symm.joined hab
  rw [h.size] at hback
  have hinverse (i : Nat) :
      beyond s.layout.size σ.symm (beyond s.layout.size σ i) = i :=
    (beyond s.layout.size σ).symm_apply_apply i
  rwa [hinverse, hinverse] at hback

/-! ### Waves of steps -/

theorem stepOf (h : s.Renumbered σ s') (i : Nat) :
    s'.stepOf (beyond s.layout.size σ i) = (s.stepOf i).renumber σ := by
  by_cases hi : i < s.layout.size
  · rw [beyond_of_lt σ hi, stepOf_cell hi, stepOf_cell (h.size.symm ▸ hi), h.nodeOf]
    rfl
  · obtain ⟨t, rfl⟩ := Nat.exists_eq_add_of_le (Nat.le_of_not_lt hi)
    rw [beyond_add, ← h.size, stepOf_transfer, h.size, stepOf_transfer]
    rfl

theorem waves_eq (h : s.Renumbered σ s') :
    ∃ m, s.waves = (List.range m).map (Waves.level s.layout.stepCount s.layout.stepEdges) ∧
      s'.waves = (List.range m).map (Waves.level s.layout.stepCount s'.layout.stepEdges) := by
  have hwithin := h.valid'.within
  have hsorted := h.valid'.sorted
  rw [h.stepCount] at hwithin hsorted
  exact h.corresponds.sort h.valid.within hwithin h.valid.sorted hsorted

theorem waves (h : s.Renumbered σ s') (config : CompileConfig) :
    List.Forall₂ (fun wave wave' => wave'.Perm (wave.map (Step.renumber σ))) (s.plan config).waves
      (s'.plan config).waves := by
  obtain ⟨m, hwaves, hwaves'⟩ := h.waves_eq
  change List.Forall₂ _ (s.waves.map _) (s'.waves.map _)
  rw [hwaves, hwaves']
  simp only [List.forall₂_map_left_iff, List.forall₂_map_right_iff, List.forall₂_same]
  intro k _
  have hperm := (h.corresponds.level_perm k).map s'.stepOf
  have hsteps : s'.stepOf ∘ beyond s.layout.size σ = Step.renumber σ ∘ s.stepOf := funext h.stepOf
  rwa [List.map_map, hsteps, ← List.map_map] at hperm

/-- What is read of the steps in order and does not tell transfers apart is read alike. -/
theorem order_map_eq (h : s.Renumbered σ s') {γ : Type*} {f f' : Nat → γ} {c : γ}
    (hcell : ∀ i < s.layout.size, f' i = f i) (htransfer : ∀ i, s.layout.size ≤ i → f i = c)
    (htransfer' : ∀ i, s.layout.size ≤ i → f' i = c) : s'.order.map f' = s.order.map f := by
  obtain ⟨m, hwaves, hwaves'⟩ := h.waves_eq
  rw [order, order, hwaves, hwaves', List.map_flatten, List.map_flatten, List.map_map, List.map_map]
  congr 1
  exact List.map_congr_left fun k _ =>
    h.corresponds.level_map_eq hcell htransfer htransfer' k

theorem getElem?_node {steps : List Step} {k : Nat} {id : NodeId} :
    steps[k]? = some (.node id) ↔ (steps.map Step.node?)[k]? = some (some id) := by
  rw [List.getElem?_map]
  cases steps[k]? with
  | none => simp
  | some step => cases step <;> simp [Step.node?]

theorem order_nodes (h : s.Renumbered σ s') (config : CompileConfig) :
    (s'.plan config).order.map Step.node? = (s.plan config).order.map Step.node? := by
  rw [plan_order, plan_order, List.map_map, List.map_map]
  have htransfer (s : Schedule) (i : Nat) (hi : s.layout.size ≤ i) : (s.stepOf i).node? = none := by
    rw [Schedule.stepOf, if_neg (Nat.not_lt_of_le hi)]
    rfl
  refine h.order_map_eq (fun i hi => ?_) (htransfer s) fun i hi => htransfer s' i (h.size ▸ hi)
  rw [Function.comp_apply, Function.comp_apply, stepOf_cell hi, stepOf_cell (h.size.symm ▸ hi),
    h.nodeOf]

theorem groups (h : s.Renumbered σ s') : s'.groups = s.groups := by
  have hnone (i : Nat) (hi : s.layout.size ≤ i) : s.cell? i = none := List.getElem?_eq_none hi
  have hcells : s'.order.filterMap s'.cell? = s.order.filterMap s.cell? := by
    have hmap : s'.order.map s'.cell? = s.order.map s.cell? :=
      h.order_map_eq (fun i _ => congrFun h.cell? i) hnone (h.cell?.symm ▸ hnone)
    have hfilter := congrArg (List.filterMap id) hmap
    rwa [List.filterMap_map, List.filterMap_map] at hfilter
  rw [Schedule.groups, Schedule.groups, hcells]

/-! ### Placements -/

theorem sourceOf (h : s.Renumbered σ s') {e : DataEdge} (he : e ∈ s.layout.net.data) :
    s'.sourceOf e = (s.sourceOf e).renumber σ := by
  rw [Schedule.sourceOf, Schedule.sourceOf, h.route he, h.nodeOf]
  cases s.layout.route e <;> rfl

theorem placementOf (h : s.Renumbered σ s') (cell : Cell) (i : Nat) :
    s'.placementOf cell i = (s.placementOf cell i).renumber σ := by
  have hfeeder (input : Nat) :
      s'.layout.net.feeder? i input = s.layout.net.feeder? i input := by
    refine Option.ext fun e => ?_
    rw [h.valid'.feeder?_eq_some, h.valid.feeder?_eq_some, h.net.data.mem_iff]
  have hgate : (s'.layout.net.gates.find? fun e => e.sink == i) =
      s.layout.net.gates.find? fun e => e.sink == i := by
    refine Option.ext fun e => ?_
    rw [h.valid'.gate_find?, h.valid.gate_find?, h.net.gates.mem_iff]
  simp only [Schedule.placementOf, Placement.renumber, h.deviceOf, h.nodeOf, hfeeder, hgate,
    List.map_map, Placement.mk.injEq, true_and, and_true]
  refine List.map_congr_left fun input _ => ?_
  rw [Function.comp_apply, Option.map_map]
  refine Option.map_congr fun e he => h.sourceOf ?_
  exact (h.valid.feeder?_eq_some.mp he).1

theorem placements (h : s.Renumbered σ s') :
    s'.placements = s.placements.map (Placement.renumber σ) := by
  change (s'.layout.net.cells.zipIdx.map fun pair => s'.placementOf pair.1 pair.2) =
    (s.layout.net.cells.zipIdx.map fun pair => s.placementOf pair.1 pair.2).map _
  simp only [h.net.cells, h.placementOf, List.map_map, Function.comp_def]

theorem placement? (h : s.Renumbered σ s') (config : CompileConfig) (id : NodeId) :
    (s'.plan config).placement? id =
      ((s.plan config).placement? id).map (Placement.renumber σ) := by
  change s'.placements.find? _ = (s.placements.find? _).map _
  rw [h.placements, List.find?_map]
  rfl

theorem transfers (h : s.Renumbered σ s') (t : Nat) : s'.transfers[σ t]? = s.transfers[t]? := by
  rw [Schedule.transfers, Schedule.transfers, List.getElem?_map, List.getElem?_map, h.places]
  simp only [Schedule.outputPort?, h.cell?, h.nodeOf, h.deviceOf]

/-- Plans of the same edges in another order agree up to the numbers of transfers. -/
theorem plan (h : s.Renumbered σ s') (config : CompileConfig) :
    (s.plan config).Renumbered σ (s'.plan config) where
  transfers := h.transfers
  waves := h.waves config
  position k id := by
    rw [getElem?_node, getElem?_node, h.order_nodes]
  device id := by
    rw [Plan.deviceOf?, Plan.deviceOf?, h.placement?, Option.map_map]
    rfl
  gate id := by
    rw [Plan.gateSource?, Plan.gateSource?, h.placement?, Option.bind_map]
    rfl
  input id input := by
    rw [Plan.inputSource?, Plan.inputSource?, h.placement?]
    cases (s.plan config).placement? id with
    | none => rfl
    | some place =>
      change ((place.inputs.map _)[input]?).join = _
      rw [List.getElem?_map, Option.bind_some]
      cases place.inputs[input]? <;> rfl
  groups := h.groups

end Schedule.Renumbered

/-! ### Transfers in the same order -/

namespace Schedule.Relisted

variable {s s' : Schedule}

theorem uses_perm (h : s.Relisted s') (heq : s'.layout.transfers = s.layout.transfers) :
    s'.layout.uses.Perm s.layout.uses := by
  have huses : s'.layout.usesOf s'.layout.transfers = s.layout.usesOf s.layout.transfers := by
    funext e
    simp only [Layout.usesOf, h.crossing?, h.size, heq]
  simp only [Layout.uses, huses]
  exact (h.net.data.flatMap_right _).append (h.net.gates.map _)

theorem waves_eq (h : s.Relisted s') (heq : s'.layout.transfers = s.layout.transfers) :
    s'.waves = s.waves := by
  have hedges : s'.layout.stepEdges.Perm s.layout.stepEdges := (h.uses_perm heq).map _
  have hsorted := h.valid'.sorted
  rw [h.stepCount, Waves.sort_perm hedges] at hsorted
  exact Except.ok.inj (hsorted.symm.trans h.valid.sorted)

theorem lastUse_perm {uses uses' : List Use} (h : uses'.Perm uses) (order : List Nat)
    (step output position : Nat) :
    lastUse order uses' step output position = lastUse order uses step output position :=
  ((h.filter _).map _).foldl_eq' (fun _ _ _ _ _ => by omega) position

theorem requests_eq (h : s.Relisted s') (heq : s'.layout.transfers = s.layout.transfers) :
    s'.requests = s.requests := by
  have hresources : s'.resources = s.resources := by
    funext i
    simp only [resources, h.size, h.cell?, h.deviceOf, heq, outputPort?]
  simp only [requests, order, h.waves_eq heq, hresources, stepOf, h.size, h.nodeOf,
    lastUse_perm (h.uses_perm heq)]

/-- Plans of the same edges in another order are equal if the transfers have the same numbers. -/
theorem plan_eq (h : s.Relisted s') (heq : s'.layout.transfers = s.layout.transfers)
    (config : CompileConfig) : s'.plan config = s.plan config := by
  have hsame : s.Renumbered (Equiv.refl Nat) s' := ⟨h, fun t => by rw [heq]; rfl⟩
  have hplacements : s'.placements = s.placements := by
    rw [hsame.placements, Placement.renumber_refl, List.map_id]
  have htransfers : s'.transfers = s.transfers := List.ext_getElem? hsame.transfers
  have hsteps : s'.stepOf = s.stepOf := by
    funext i
    rw [stepOf, stepOf, h.size, h.nodeOf]
  simp only [plan, h.waves_eq heq, hsteps, hplacements, htransfers, h.requests_eq heq,
    hsame.groups]

end Schedule.Relisted

end FrameGraph
