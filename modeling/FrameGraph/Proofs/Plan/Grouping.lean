import Mathlib.Data.List.Pairwise
import FrameGraph.Proofs.Plan.Steps

/-! Groups of cells that share a pipeline. Sharing is symmetric and transitive, and a cell
shares with itself where its type allows it, so to compare a cell with the first member of
a group is to compare it with all of them. One cell at a time, in plan order, the groups
stay a partition of the cells seen so far: members of one group share with one another and
with nobody outside it. -/

namespace FrameGraph

namespace Cell

variable {a b c : Cell}

theorem shares_iff : a.shares b = true ↔
    a.instancing = true ∧ b.instancing = true ∧ a.type = b.type ∧ a.params = b.params := by
  simp [shares, and_assoc]

theorem shares_comm (a b : Cell) : a.shares b = b.shares a := by
  rw [Bool.eq_iff_iff, shares_iff, shares_iff]
  constructor
  · rintro ⟨ha, hb, htype, hparams⟩
    exact ⟨hb, ha, htype.symm, hparams.symm⟩
  · rintro ⟨hb, ha, htype, hparams⟩
    exact ⟨ha, hb, htype.symm, hparams.symm⟩

theorem shares_trans (hab : a.shares b = true) (hbc : b.shares c = true) : a.shares c = true := by
  obtain ⟨ha, _, htype, hparams⟩ := shares_iff.mp hab
  obtain ⟨_, hc, htype', hparams'⟩ := shares_iff.mp hbc
  exact shares_iff.mpr ⟨ha, hc, htype.trans htype', hparams.trans hparams'⟩

/-- Cells that share with one another share with the same cells. -/
theorem shares_congr (hab : a.shares b = true) (c : Cell) : a.shares c = b.shares c := by
  rw [Bool.eq_iff_iff]
  exact ⟨shares_trans (shares_comm a b ▸ hab), shares_trans hab⟩

end Cell

namespace Plan

variable {p : Plan} {a b : NodeId}

/-- Where groups have no member in common, a node's group is the one that lists it. -/
theorem groupOf?_eq_some (hp : (p.groups.flatMap Group.members).Nodup) {i : Nat} :
    p.groupOf? a = some i ↔ ∃ group, p.groups[i]? = some group ∧ a ∈ group.members := by
  have hapart := (List.nodup_flatMap.mp hp).2
  rw [groupOf?, List.findIdx?_eq_some_iff_getElem]
  simp only [List.contains_iff_mem]
  constructor
  · rintro ⟨hi, hmem, _⟩
    exact ⟨_, List.getElem?_eq_getElem hi, hmem⟩
  · rintro ⟨group, hgroup, hmem⟩
    obtain ⟨hi, rfl⟩ := List.getElem?_eq_some_iff.mp hgroup
    refine ⟨hi, hmem, fun j hj hearlier => ?_⟩
    exact List.pairwise_iff_getElem.mp hapart j i (hj.trans hi) hi hj hearlier hmem

theorem groupOf?_eq_iff (hp : (p.groups.flatMap Group.members).Nodup)
    (ha : a ∈ p.groups.flatMap Group.members) :
    p.groupOf? a = p.groupOf? b ↔ ∃ group ∈ p.groups, a ∈ group.members ∧ b ∈ group.members := by
  constructor
  · intro heq
    obtain ⟨group, hgroup, hmem⟩ := List.mem_flatMap.mp ha
    obtain ⟨i, hi⟩ := List.mem_iff_getElem?.mp hgroup
    have hnumber := (groupOf?_eq_some hp).mpr ⟨group, hi, hmem⟩
    obtain ⟨other, hother, hb⟩ := (groupOf?_eq_some hp).mp (heq.symm.trans hnumber)
    exact ⟨group, hgroup, hmem, Option.some.inj (hother.symm.trans hi) ▸ hb⟩
  · rintro ⟨group, hgroup, ha, hb⟩
    obtain ⟨i, hi⟩ := List.mem_iff_getElem?.mp hgroup
    rw [(groupOf?_eq_some hp).mpr ⟨group, hi, ha⟩, (groupOf?_eq_some hp).mpr ⟨group, hi, hb⟩]

end Plan

namespace Schedule

/-- Groups hold each of some cells once. In a group, in the order of the cells, all share with one
another; cells of different groups do not share. Groups come in the order of their first members. -/
structure Grouped (cells : List Cell) (groups : List (List Cell)) : Prop where
  perm : groups.flatten.Perm cells
  inOrder : ∀ group ∈ groups, group.Sublist cells
  firsts : ∃ heads : List Cell, heads.Sublist cells ∧ groups.map List.head? = heads.map some
  within : ∀ group ∈ groups, group.Pairwise fun a b => a.shares b = true
  apart : groups.Pairwise fun x y => ∀ a ∈ x, ∀ b ∈ y, a.shares b = false

namespace Grouped

variable {cells : List Cell} {groups : List (List Cell)} {group : List Cell} {c : Cell}

theorem empty : Grouped [] [] :=
  ⟨.refl _, by simp, ⟨[], .refl _, rfl⟩, by simp, .nil⟩

theorem exists_head (h : Grouped cells groups) (hgroup : group ∈ groups) :
    ∃ first rest, group = first :: rest := by
  obtain ⟨heads, _, heads_eq⟩ := h.firsts
  have hmem := List.mem_map_of_mem (f := List.head?) hgroup
  rw [heads_eq] at hmem
  obtain ⟨first, _, hfirst⟩ := List.mem_map.mp hmem
  exact ⟨first, _, (List.cons_head?_tail (Option.mem_def.mpr hfirst.symm)).symm⟩

/-- A cell shares with the first member of a group exactly when it shares with any of them. -/
theorem head_shares (h : Grouped cells groups) (hgroup : group ∈ groups) {a : Cell}
    (ha : a ∈ group) : group.head?.any c.shares = a.shares c := by
  obtain ⟨first, rest, rfl⟩ := h.exists_head hgroup
  rw [List.head?_cons, Option.any_some, Cell.shares_comm]
  rcases List.mem_cons.mp ha with rfl | ha
  · rfl
  · exact Cell.shares_congr ((List.pairwise_cons.mp (h.within _ hgroup)).1 a ha) c

/-- A cell that shares with no group makes a group of its own. -/
theorem append (h : Grouped cells groups)
    (hnew : ∀ group ∈ groups, group.head?.any c.shares = false) :
    Grouped (cells ++ [c]) (groups ++ [[c]]) := by
  obtain ⟨heads, hheads, heads_eq⟩ := h.firsts
  constructor
  case perm =>
    rw [List.flatten_append]
    exact h.perm.append_right _
  case inOrder =>
    rw [List.forall_mem_append, List.forall_mem_singleton]
    exact ⟨fun group hgroup => (h.inOrder group hgroup).trans (List.sublist_append_left _ _),
      List.sublist_append_right _ _⟩
  case firsts =>
    refine ⟨heads ++ [c], hheads.append (.refl _), ?_⟩
    rw [List.map_append, List.map_append, heads_eq]
    rfl
  case within =>
    rw [List.forall_mem_append, List.forall_mem_singleton]
    exact ⟨h.within, List.pairwise_singleton _ _⟩
  case apart =>
    refine List.pairwise_append.mpr ⟨h.apart, List.pairwise_singleton _ _, ?_⟩
    intro group hgroup
    rw [List.forall_mem_singleton]
    intro a ha
    rw [List.forall_mem_singleton, ← h.head_shares hgroup ha]
    exact hnew group hgroup

/-- A cell that shares with a group joins it at its end. -/
theorem insert {front back : List (List Cell)} (h : Grouped cells (front ++ group :: back))
    (hshares : group.head?.any c.shares = true) :
    Grouped (cells ++ [c]) (front ++ (group ++ [c]) :: back) := by
  have hgroup : group ∈ front ++ group :: back := by simp
  obtain ⟨first, hmem⟩ : ∃ first, first ∈ group := by
    obtain ⟨first, rest, rfl⟩ := h.exists_head hgroup
    exact ⟨first, List.mem_cons_self⟩
  -- to share with the new cell is to share with any member of its group
  have hsame {a : Cell} (ha : a ∈ group) (b : Cell) : b.shares c = b.shares a := by
    rw [Cell.shares_comm b c, Cell.shares_comm b a]
    rw [h.head_shares hgroup ha] at hshares
    exact (Cell.shares_congr hshares b).symm
  constructor
  case perm =>
    have hperm := h.perm
    simp only [List.flatten_append, List.flatten_cons, ← List.append_assoc] at hperm
    simp only [List.flatten_append, List.flatten_cons, ← List.append_assoc]
    rw [List.append_assoc _ [c]]
    exact (List.perm_middle.trans (hperm.cons c)).trans (List.perm_append_singleton c cells).symm
  case inOrder =>
    have hkept (x : List Cell) (hx : x.Sublist cells) : x.Sublist (cells ++ [c]) :=
      hx.trans (List.sublist_append_left _ _)
    obtain ⟨hfront, hown, hback⟩ := List.forall_mem_append.mp h.inOrder |>.imp_right
      List.forall_mem_cons.mp
    rw [List.forall_mem_append, List.forall_mem_cons]
    exact ⟨fun x hx => hkept x (hfront x hx), hown.append (.refl _),
      fun x hx => hkept x (hback x hx)⟩
  case firsts =>
    obtain ⟨heads, hheads, heads_eq⟩ := h.firsts
    refine ⟨heads, hheads.trans (List.sublist_append_left _ _), ?_⟩
    rw [← heads_eq, List.map_append, List.map_append, List.map_cons, List.map_cons,
      List.head?_append_of_ne_nil _ (List.ne_nil_of_mem hmem)]
  case within =>
    obtain ⟨hfront, hown, hback⟩ := List.forall_mem_append.mp h.within |>.imp_right
      List.forall_mem_cons.mp
    rw [List.forall_mem_append, List.forall_mem_cons]
    refine ⟨hfront, List.pairwise_append.mpr ⟨hown, List.pairwise_singleton _ _, ?_⟩, hback⟩
    intro a ha
    rw [List.forall_mem_singleton, ← h.head_shares hgroup ha]
    exact hshares
  case apart =>
    obtain ⟨hfront, hrest, hacross⟩ := List.pairwise_append.mp h.apart
    obtain ⟨hown, hback⟩ := List.pairwise_cons.mp hrest
    refine List.pairwise_append.mpr ⟨hfront, List.pairwise_cons.mpr ⟨fun z hz => ?_, hback⟩,
      fun x hx => ?_⟩
    · rw [List.forall_mem_append, List.forall_mem_singleton]
      refine ⟨hown z hz, fun b hb => ?_⟩
      rw [Cell.shares_comm, hsame hmem, Cell.shares_comm]
      exact hown z hz first hmem b hb
    · rw [List.forall_mem_cons]
      refine ⟨fun a ha => ?_, fun z hz => hacross x hx z (List.mem_cons_of_mem _ hz)⟩
      rw [List.forall_mem_append, List.forall_mem_singleton, hsame hmem]
      have hapart := hacross x hx group List.mem_cons_self a ha
      exact ⟨hapart, hapart first hmem⟩

theorem join (h : Grouped cells groups) (c : Cell) :
    Grouped (cells ++ [c]) (Schedule.join groups c) := by
  unfold Schedule.join
  split
  · next i hi =>
    obtain ⟨hlt, hshares, _⟩ := List.findIdx?_eq_some_iff_getElem.mp hi
    rw [List.modify_eq_take_cons_drop hlt]
    refine insert ?_ hshares
    rwa [← List.drop_eq_getElem_cons hlt, List.take_append_drop]
  · next hnone =>
    exact h.append fun group hgroup => Bool.eq_false_of_not_eq_true
      (by simpa using List.findIdx?_eq_none_iff.mp hnone group hgroup)

theorem foldl (h : Grouped cells groups) (rest : List Cell) :
    Grouped (cells ++ rest) (rest.foldl Schedule.join groups) := by
  induction rest generalizing cells groups with
  | nil => simpa using h
  | cons c rest ih => simpa using ih (h.join c)

/-- Two cells are in one group exactly when they share. -/
theorem together_iff (h : Grouped cells groups) {a b : Cell} (ha : a ∈ cells) (hb : b ∈ cells)
    (hne : a ≠ b) : (∃ group ∈ groups, a ∈ group ∧ b ∈ group) ↔ a.shares b = true := by
  constructor
  · rintro ⟨group, hgroup, ha, hb⟩
    have : Std.Symm fun a b : Cell => a.shares b = true :=
      ⟨fun x y hxy => (Cell.shares_comm y x).trans hxy⟩
    exact (h.within group hgroup).forall ha hb hne
  · intro hshares
    obtain ⟨x, hx, hax⟩ := List.mem_flatten.mp (h.perm.mem_iff.mpr ha)
    obtain ⟨y, hy, hby⟩ := List.mem_flatten.mp (h.perm.mem_iff.mpr hb)
    by_cases hxy : x = y
    · exact ⟨x, hx, hax, hxy ▸ hby⟩
    · -- apart, two groups share in neither direction
      have hapart : ∀ a ∈ x, ∀ b ∈ y, a.shares b = false := by
        have : Std.Symm fun x y : List Cell => ∀ a ∈ x, ∀ b ∈ y, a.shares b = false :=
          ⟨fun _ _ h a ha b hb => (Cell.shares_comm a b).trans (h b hb a ha)⟩
        exact h.apart.forall hx hy hxy
      exact absurd (hapart a hax b hby) (by simp [hshares])

end Grouped

/-! ### The groups of a schedule -/

variable {s : Schedule}

def cellOrder (s : Schedule) : List Cell := s.order.filterMap s.cell?

def classes (s : Schedule) : List (List Cell) := s.cellOrder.foldl join []

theorem classes_grouped (s : Schedule) : Grouped s.cellOrder s.classes :=
  Grouped.empty.foldl s.cellOrder

theorem Valid.cellOrder_perm (hv : s.Valid) : s.cellOrder.Perm s.layout.net.cells := by
  refine (hv.order_perm.filterMap s.cell?).trans (.of_eq ?_)
  have hcells : (List.range s.layout.size).map s.cell? = s.layout.net.cells.map some := by
    refine List.ext_getElem (by simp [Layout.size]) fun i hi _ => ?_
    have hlt : i < s.layout.net.cells.length := by simpa [Layout.size] using hi
    simp [cell?, hlt]
  have htransfers : ∀ t ∈ List.range s.layout.transfers.length,
      (s.cell? ∘ fun t => s.layout.size + t) t = none :=
    fun t _ => List.getElem?_eq_none (Nat.le_add_right _ _)
  calc (List.range s.layout.stepCount).filterMap s.cell?
      = (List.range s.layout.size).filterMap s.cell? := by
        rw [Layout.stepCount, List.range_add, List.filterMap_append, List.filterMap_map,
          List.filterMap_eq_nil_iff.mpr htransfers, List.append_nil]
    _ = ((List.range s.layout.size).map s.cell?).filterMap id := by
        rw [List.filterMap_map, Function.id_comp]
    _ = s.layout.net.cells := by
        rw [hcells, List.filterMap_map, Function.id_comp, List.filterMap_some]

theorem cellOrder_steps (s : Schedule) (config : CompileConfig) :
    (s.cellOrder.map fun c => Step.node c.id).Sublist (s.plan config).order := by
  rw [plan_order, cellOrder]
  induction s.order with
  | nil => exact .slnil
  | cons i rest ih =>
    cases h : s.cell? i with
    | none =>
      rw [List.filterMap_cons_none h]
      exact ih.cons _
    | some c =>
      have hstep : s.stepOf i = .node c.id := by
        rw [stepOf_cell (Netlist.lt_of_getElem? h), nodeOf_eq h]
      rw [List.filterMap_cons_some h, List.map_cons, List.map_cons, hstep]
      exact ih.cons_cons _

theorem groups_members (s : Schedule) :
    s.groups.map Group.members = s.classes.map fun cells => cells.map Cell.id := by
  rw [groups, List.map_map]
  rfl

theorem Valid.members_perm (hv : s.Valid) :
    (s.groups.flatMap Group.members).Perm (s.layout.net.cells.map Cell.id) := by
  rw [List.flatMap_def, groups_members, ← List.map_flatten]
  exact (s.classes_grouped.perm.trans hv.cellOrder_perm).map Cell.id

theorem exists_class {group : Group} (h : group ∈ s.groups) : ∃ cells ∈ s.classes,
    group.members = cells.map Cell.id ∧
      ∀ c ∈ cells, group.type = c.type ∧ group.params = c.params := by
  obtain ⟨cells, hcells, rfl⟩ := List.mem_map.mp h
  refine ⟨cells, hcells, rfl, fun c hc => ?_⟩
  obtain ⟨first, rest, rfl⟩ := s.classes_grouped.exists_head hcells
  rcases List.mem_cons.mp hc with rfl | hrest
  · exact ⟨rfl, rfl⟩
  · obtain ⟨_, _, htype, hparams⟩ := Cell.shares_iff.mp
      ((List.pairwise_cons.mp (s.classes_grouped.within _ hcells)).1 c hrest)
    exact ⟨htype, hparams⟩

/-- Groups stand as their first members do in the plan. -/
theorem exists_firsts (s : Schedule) (config : CompileConfig) : ∃ firsts : List NodeId,
    s.groups.map (fun group => group.members.head?) = firsts.map some ∧
      (firsts.map Step.node).Sublist (s.plan config).order := by
  obtain ⟨heads, hheads, heads_eq⟩ := s.classes_grouped.firsts
  refine ⟨heads.map Cell.id, ?_, ?_⟩
  · calc s.groups.map (fun group => group.members.head?)
        = (s.groups.map Group.members).map List.head? := by rw [List.map_map]; rfl
      _ = (s.classes.map List.head?).map (Option.map Cell.id) := by
        rw [groups_members, List.map_map, List.map_map]
        exact List.map_congr_left fun cells _ => List.head?_map
      _ = (heads.map Cell.id).map some := by rw [heads_eq, List.map_map, List.map_map]; rfl
  · rw [List.map_map]
    exact (hheads.map _).trans (s.cellOrder_steps config)

/-- A cell belongs to a group when the group lists its node. -/
theorem Valid.mem_class (hv : s.Valid) {cells : List Cell} (hcells : cells ∈ s.classes) {c : Cell}
    (hc : c ∈ s.cellOrder) : c.id ∈ cells.map Cell.id ↔ c ∈ cells := by
  refine ⟨fun h => ?_, List.mem_map_of_mem⟩
  obtain ⟨d, hd, hid⟩ := List.mem_map.mp h
  have hlisted {x : Cell} : x ∈ s.cellOrder ↔ x ∈ s.layout.net.cells :=
    hv.cellOrder_perm.mem_iff
  have hinj := List.inj_on_of_nodup_map hv.sound.ids_nodup
  have hd' := (s.classes_grouped.inOrder _ hcells).mem hd
  rwa [← hinj (hlisted.mp hd') (hlisted.mp hc) hid]

end Schedule

end FrameGraph
