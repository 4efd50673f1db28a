import Mathlib.Data.Fintype.Card
import Mathlib.Data.Fintype.EquivFin
import Mathlib.Data.List.Perm.Subperm
import Mathlib.Data.Nat.Find
import Mathlib.Order.Bounds.Basic
import Mathlib.Order.WellFounded
import FrameGraph.Plan.Waves

/-! What the layered sort computes. A chain of edges that ends at an index is a reason
to place it late, and the wave of an index is the length of the longest such chain.
The sort is described in closed form: after `k` waves the numbers left count the edges
from indices at which a chain of `k` edges ends, so wave `k` holds the indices with a
chain of `k` edges and none of `k + 1`. It succeeds exactly when the edges admit a
rank, and fails exactly when they contain a cycle. Edges must lie within the indices;
nothing else is assumed of them. -/

namespace FrameGraph

/-- A chain of `k` related pairs ends at `a`. -/
inductive ChainTo {α : Type*} (r : α → α → Prop) : Nat → α → Prop
  | start (a : α) : ChainTo r 0 a
  | snoc {k : Nat} {a b : α} (h : ChainTo r k a) (hr : r a b) : ChainTo r (k + 1) b

namespace ChainTo

variable {α β : Type*} {r : α → α → Prop} {s : β → β → Prop}

/-- Chains carry over along a map that keeps related pairs. -/
theorem map (f : α → β) (hf : ∀ a b, r a b → s (f a) (f b)) {k : Nat} {a : α}
    (h : ChainTo r k a) : ChainTo s k (f a) := by
  induction h with
  | start a => exact .start _
  | snoc _ hr ih => exact .snoc ih (hf _ _ hr)

/-- What follows the end of a chain ends a longer one. -/
theorem transGen {k : Nat} {a b : α} (h : ChainTo r k a) (hab : Relation.TransGen r a b) :
    ∃ m, k < m ∧ ChainTo r m b := by
  induction hab with
  | single hr => exact ⟨k + 1, Nat.lt_succ_self k, h.snoc hr⟩
  | tail _ hr ih =>
    obtain ⟨m, hkm, hm⟩ := ih
    exact ⟨m + 1, by omega, hm.snoc hr⟩

theorem isGreatest_zero {a : α} : IsGreatest {m | ChainTo r m a} 0 ↔ ∀ b, ¬r b a := by
  constructor
  · rintro ⟨_, hmax⟩ b hr
    have hone : ChainTo r 1 a := (start b).snoc hr
    exact absurd (hmax hone) (by decide)
  · intro hnone
    refine ⟨start a, fun m hm => ?_⟩
    cases hm with
    | start => exact le_rfl
    | snoc _ hr => exact absurd hr (hnone _)

/-- Where every related pair ascends, a chain is no longer than the height of its end. -/
theorem le_rank (rank : α → Nat) (hrank : ∀ a b, r a b → rank a < rank b) {k : Nat} {a : α}
    (h : ChainTo r k a) : k ≤ rank a := by
  induction h with
  | start a => exact Nat.zero_le _
  | snoc _ hr ih => exact Nat.succ_le_of_lt (ih.trans_lt (hrank _ _ hr))

end ChainTo

namespace Waves

def Joined (edges : List Edge) (a b : Nat) : Prop := ⟨a, b⟩ ∈ edges

def Within (n : Nat) (edges : List Edge) : Prop := ∀ e ∈ edges, e.source < n ∧ e.sink < n

/-- Whether a chain of `k` edges ends at `i`. -/
def deep (edges : List Edge) : Nat → Nat → Bool
  | 0, _ => true
  | k + 1, i => edges.any fun e => e.sink == i && deep edges k e.source

/-- The indices at which the longest chain has `k` edges. -/
def level (n : Nat) (edges : List Edge) (k : Nat) : List Nat :=
  (List.range n).filter fun i => deep edges k i && !deep edges (k + 1) i

/-- For each index, the number of edges into it from ends of chains of `k` edges. -/
def pending (n : Nat) (edges : List Edge) (k : Nat) : List Nat :=
  (List.range n).map fun i => edges.countP fun e => e.sink == i && deep edges k e.source

variable {n : Nat} {edges : List Edge}

theorem deep_succ {k i : Nat} :
    deep edges (k + 1) i = true ↔ ∃ e ∈ edges, e.sink = i ∧ deep edges k e.source = true := by
  simp [deep]

theorem deep_iff_chainTo {k i : Nat} :
    deep edges k i = true ↔ ChainTo (Joined edges) k i := by
  induction k generalizing i with
  | zero => exact ⟨fun _ => .start i, fun _ => rfl⟩
  | succ k ih =>
    rw [deep_succ]
    constructor
    · rintro ⟨e, he, rfl, hd⟩
      exact .snoc (ih.mp hd) he
    · intro h
      cases h with
      | snoc h hr => exact ⟨_, hr, rfl, ih.mpr h⟩

/-- A chain without its first edge is a chain. -/
theorem deep_of_succ {k i : Nat} (h : deep edges (k + 1) i = true) : deep edges k i = true := by
  induction k generalizing i with
  | zero => rfl
  | succ k ih =>
    obtain ⟨e, he, hs, hd⟩ := deep_succ.mp h
    exact deep_succ.mpr ⟨e, he, hs, ih hd⟩

theorem deep_of_le {k m i : Nat} (hkm : k ≤ m) (h : deep edges m i = true) :
    deep edges k i = true := by
  induction hkm with
  | refl => exact h
  | step _ ih => exact ih (deep_of_succ h)

theorem mem_level {k i : Nat} :
    i ∈ level n edges k ↔ i < n ∧ deep edges k i = true ∧ deep edges (k + 1) i = false := by
  simp [level]

theorem level_eq_nil {k : Nat} (hshallow : ∀ i < n, deep edges k i = false) :
    level n edges k = [] := by
  refine List.eq_nil_iff_forall_not_mem.mpr fun i hi => ?_
  obtain ⟨hlt, hdeep, _⟩ := mem_level.mp hi
  exact absurd hdeep (by simp [hshallow i hlt])

theorem level_sorted (k : Nat) : (level n edges k).Pairwise (· < ·) :=
  List.Pairwise.filter _ List.pairwise_lt_range

/-! ### The sort in closed form -/

@[simp] theorem length_pending (k : Nat) : (pending n edges k).length = n := by simp [pending]

theorem pending_getD {k i : Nat} (hi : i < n) :
    (pending n edges k).getD i 0 =
      edges.countP fun e => e.sink == i && deep edges k e.source := by
  simp [pending, List.getD, hi]

theorem pending_eq_zero {k i : Nat} (hi : i < n) :
    (pending n edges k).getD i 0 = 0 ↔ deep edges (k + 1) i = false := by
  rw [pending_getD hi, List.countP_eq_zero]
  simp [deep]

theorem indegrees_eq : indegrees n edges = pending n edges 0 := by
  simp [indegrees, pending, deep]

theorem sources_pending : sources (pending n edges 0) = level n edges 0 := by
  unfold sources level
  rw [length_pending]
  apply List.filter_congr
  intro i hi
  have hzero : _ ↔ deep edges 1 i = false := pending_eq_zero (List.mem_range.mp hi)
  cases h : deep edges 1 i <;> simp_all [deep]

theorem countP_split {α : Type*} (p q r : α → Bool) (l : List α)
    (h : ∀ x ∈ l, p x = (q x || r x)) (hd : ∀ x ∈ l, (q x && r x) = false) :
    l.countP p = l.countP q + l.countP r := by
  induction l with
  | nil => rfl
  | cons x l ih =>
    have ih := ih (fun y hy => h y (by simp [hy])) (fun y hy => hd y (by simp [hy]))
    have hx := h x (by simp)
    have hdx := hd x (by simp)
    simp only [List.countP_cons, ih, hx]
    cases hq : q x <;> cases hr : r x <;> simp_all <;> omega

/-- Placing a level takes from each number the edges that come from it. -/
theorem lower_pending (hw : Within n edges) (k : Nat) :
    lower edges (level n edges k) (pending n edges k) = pending n edges (k + 1) := by
  apply List.ext_getElem (by simp [lower])
  intro i hi _
  have hi : i < n := by simpa [lower] using hi
  have hsplit : edges.countP (fun e => e.sink == i && deep edges k e.source) =
      edges.countP (fun e => e.sink == i && (level n edges k).contains e.source) +
        edges.countP (fun e => e.sink == i && deep edges (k + 1) e.source) := by
    refine countP_split _ _ _ _ (fun e he => ?_) (fun e he => ?_)
    · have hmem : e.source ∈ level n edges k ↔ _ := mem_level
      have hmono : deep edges (k + 1) e.source = true → _ := deep_of_succ
      have hlt := (hw e he).1
      by_cases hin : e.source ∈ level n edges k <;>
        cases h1 : deep edges (k + 1) e.source <;> cases h0 : deep edges k e.source <;> simp_all
    · by_cases hin : e.source ∈ level n edges k
      · simp [(mem_level.mp hin).2.2]
      · simp [hin]
  simp only [lower, List.getElem_mapIdx, pending, List.getElem_map, List.getElem_range, relief]
  omega

theorem freed_pending (k : Nat) :
    freed (pending n edges k) (pending n edges (k + 1)) = level n edges (k + 1) := by
  unfold freed level
  rw [length_pending]
  apply List.filter_congr
  intro i hi
  have hi := List.mem_range.mp hi
  have h0 : _ ↔ deep edges (k + 1) i = false := pending_eq_zero hi
  have h1 : _ ↔ deep edges (k + 1 + 1) i = false := pending_eq_zero hi
  cases hd : deep edges (k + 1) i <;> cases hd' : deep edges (k + 1 + 1) i <;> simp_all

/-- From level `k` on, the waves are the levels up to the first empty one, unless there are fewer
rounds. -/
theorem place_level (hw : Within n edges) (fuel k : Nat) :
    ∃ m ≤ fuel,
      place edges fuel (level n edges k) (pending n edges k) =
        ((List.range' k m).map (level n edges), pending n edges (k + m)) ∧
      (∀ wave ∈ (List.range' k m).map (level n edges), wave ≠ []) ∧
      (m < fuel → level n edges (k + m) = []) := by
  induction fuel generalizing k with
  | zero => exact ⟨0, le_rfl, rfl, by simp, by simp⟩
  | succ fuel ih =>
    by_cases hempty : level n edges k = []
    · exact ⟨0, Nat.zero_le _, by simp [place, hempty], by simp, fun _ => hempty⟩
    · obtain ⟨m, hm, hplace, hne, hlast⟩ := ih (k + 1)
      refine ⟨m + 1, by omega, ?_, ?_, fun h => ?_⟩
      · have hstep : k + (m + 1) = k + 1 + m := by omega
        simp [place, hempty, lower_pending hw, freed_pending, hplace, List.range'_succ, hstep]
      · rw [List.range'_succ, List.map_cons, List.forall_mem_cons]
        exact ⟨hempty, hne⟩
      · rw [show k + (m + 1) = k + 1 + m by omega]
        exact hlast (by omega)

/-! ### Levels cover the shallow indices -/

theorem mem_levels {m i : Nat} :
    i ∈ ((List.range m).map (level n edges)).flatten ↔ i < n ∧ deep edges m i = false := by
  simp only [List.mem_flatten, List.mem_map, List.mem_range, exists_exists_and_eq_and, mem_level]
  constructor
  · rintro ⟨k, hk, hi, _, hn⟩
    refine ⟨hi, ?_⟩
    cases h : deep edges m i with
    | false => rfl
    | true => exact absurd (deep_of_le (by omega : k + 1 ≤ m) h) (by simp [hn])
  · rintro ⟨hi, hn⟩
    induction m with
    | zero => simp [deep] at hn
    | succ m ih =>
      cases h : deep edges m i with
      | true => exact ⟨m, by omega, hi, h, hn⟩
      | false =>
        obtain ⟨k, hk, rest⟩ := ih h
        exact ⟨k, by omega, rest⟩

theorem levels_nodup (n : Nat) (edges : List Edge) (m : Nat) :
    ((List.range m).map (level n edges)).flatten.Nodup := by
  rw [List.nodup_flatten]
  constructor
  · intro wave hwave
    obtain ⟨k, _, rfl⟩ := List.mem_map.mp hwave
    exact (level_sorted k).imp fun h => Nat.ne_of_lt h
  · rw [List.pairwise_map]
    apply List.pairwise_lt_range.imp
    intro a b hab i ha hb
    have hshallow := (mem_level.mp ha).2.2
    exact absurd (deep_of_le (by omega : a + 1 ≤ b) (mem_level.mp hb).2.1) (by simp [hshallow])

theorem levels_subset (n : Nat) (edges : List Edge) (m : Nat) :
    ((List.range m).map (level n edges)).flatten ⊆ List.range n := fun _ hi =>
  List.mem_range.mpr (mem_levels.mp hi).1

theorem length_levels_eq_iff {m : Nat} :
    ((List.range m).map (level n edges)).flatten.length = n ↔
      ∀ i < n, deep edges m i = false := by
  have hsub := (levels_nodup n edges m).subperm (levels_subset n edges m)
  constructor
  · intro hlen i hi
    have hperm := hsub.perm_of_length_le (by simp [hlen])
    exact (mem_levels.mp (hperm.mem_iff.mpr (List.mem_range.mpr hi))).2
  · intro h
    have hback : List.range n ⊆ ((List.range m).map (level n edges)).flatten := fun i hi =>
      mem_levels.mpr ⟨List.mem_range.mp hi, h i (List.mem_range.mp hi)⟩
    have hle := hsub.length_le
    have hge := (List.nodup_range.subperm hback).length_le
    rw [List.length_range] at hle hge
    omega

theorem le_length_flatten (waves : List (List Nat)) (h : ∀ wave ∈ waves, wave ≠ []) :
    waves.length ≤ waves.flatten.length := by
  induction waves with
  | nil => simp
  | cons wave waves ih =>
    obtain ⟨hhead, htail⟩ := List.forall_mem_cons.mp h
    have := List.length_pos_iff.mpr hhead
    have := ih htail
    simp only [List.flatten_cons, List.length_append, List.length_cons]
    omega

/-! ### What the sort answers -/

/-- The waves of a successful sort are levels, and after them nothing is left. -/
theorem sort_ok (hw : Within n edges) {waves : List (List Nat)} (h : sort n edges = .ok waves) :
    ∃ m, waves = (List.range m).map (level n edges) ∧ (∀ wave ∈ waves, wave ≠ []) ∧
      ∀ i < n, deep edges m i = false := by
  obtain ⟨m, _, hplace, hne, _⟩ := place_level hw n 0
  rw [← List.range_eq_range'] at hplace hne
  simp only [sort, indegrees_eq, sources_pending, hplace] at h
  split at h
  · next hlen =>
    obtain rfl := Except.ok.inj h
    exact ⟨m, rfl, hne, length_levels_eq_iff.mp hlen⟩
  · cases h

/-- After a failed sort some index is deeper than a level that is empty, and the cycle is looked for
among the edges from there. -/
theorem sort_error (hw : Within n edges) {cycle : List Nat} (h : sort n edges = .error cycle) :
    ∃ m, level n edges m = [] ∧ (∃ i < n, deep edges m i = true) ∧
      Waves.cycle edges (pending n edges m) = cycle := by
  obtain ⟨m, hm, hplace, hne, hlast⟩ := place_level hw n 0
  rw [← List.range_eq_range'] at hplace hne
  simp only [sort, indegrees_eq, sources_pending, hplace] at h
  split at h
  · cases h
  · next hlen =>
    have hle := le_length_flatten _ hne
    have hsub := (levels_nodup n edges m).subperm (levels_subset n edges m)
    have hbound := hsub.length_le
    rw [List.length_range] at hbound
    rw [List.length_map, List.length_range] at hle
    rw [Nat.zero_add] at hlast
    rw [Nat.zero_add] at h
    refine ⟨m, hlast (by omega), ?_, Except.error.inj h⟩
    by_contra hnone
    refine hlen (length_levels_eq_iff.mpr fun i hi => ?_)
    cases hd : deep edges m i with
    | false => rfl
    | true => exact absurd ⟨i, hi, hd⟩ hnone

/-- The wave of an index is the length of the longest chain that ends at it. -/
theorem mem_wave_iff (hw : Within n edges) {waves : List (List Nat)}
    (h : sort n edges = .ok waves) {k i : Nat} :
    (∃ wave, waves[k]? = some wave ∧ i ∈ wave) ↔
      i < n ∧ IsGreatest {m | ChainTo (Joined edges) m i} k := by
  obtain ⟨m, rfl, _, hshallow⟩ := sort_ok hw h
  constructor
  · rintro ⟨wave, hwave, hi⟩
    have hk : k < m := by
      by_contra hk
      rw [List.getElem?_eq_none (by simp; omega)] at hwave
      cases hwave
    rw [List.getElem?_map, List.getElem?_range hk] at hwave
    obtain rfl := Option.some.inj hwave
    obtain ⟨hin, hd, hnd⟩ := mem_level.mp hi
    refine ⟨hin, deep_iff_chainTo.mp hd, fun j hj => ?_⟩
    by_contra hlt
    exact absurd (deep_of_le (by omega : k + 1 ≤ j) (deep_iff_chainTo.mpr hj)) (by simp [hnd])
  · rintro ⟨hi, hchain, hmax⟩
    have hd := deep_iff_chainTo.mpr hchain
    have hk : k < m := by
      by_contra hk
      exact absurd (deep_of_le (by omega : m ≤ k) hd) (by simp [hshallow i hi])
    refine ⟨level n edges k, by simp [hk], mem_level.mpr ⟨hi, hd, ?_⟩⟩
    cases hnd : deep edges (k + 1) i with
    | false => rfl
    | true =>
      have := hmax (deep_iff_chainTo.mp hnd)
      omega

/-- A successful sort places every index once and no other. -/
theorem flatten_perm (hw : Within n edges) {waves : List (List Nat)}
    (h : sort n edges = .ok waves) : waves.flatten.Perm (List.range n) := by
  obtain ⟨m, rfl, _, hshallow⟩ := sort_ok hw h
  refine ((levels_nodup n edges m).subperm (levels_subset n edges m)).perm_of_length_le ?_
  rw [length_levels_eq_iff.mpr hshallow, List.length_range]

theorem wave_eq_filter (hw : Within n edges) {waves : List (List Nat)}
    (h : sort n edges = .ok waves) {wave : List Nat} (hwave : wave ∈ waves) :
    wave = (List.range n).filter fun i => wave.contains i := by
  obtain ⟨m, rfl, _, _⟩ := sort_ok hw h
  obtain ⟨k, _, rfl⟩ := List.mem_map.mp hwave
  apply List.filter_congr
  intro i hi
  have hmem : i ∈ level n edges k ↔ _ := mem_level
  rw [Bool.eq_iff_iff, List.contains_iff_mem, hmem]
  simp [List.mem_range.mp hi]

theorem wave_ne_nil (hw : Within n edges) {waves : List (List Nat)}
    (h : sort n edges = .ok waves) {wave : List Nat} (hwave : wave ∈ waves) : wave ≠ [] :=
  (sort_ok hw h).choose_spec.2.1 wave hwave

/-- No edge leads back: what is placed later is joined to nothing placed before it. -/
theorem flatten_pairwise (hw : Within n edges) {waves : List (List Nat)}
    (h : sort n edges = .ok waves) : waves.flatten.Pairwise fun a b => ¬Joined edges b a := by
  obtain ⟨m, rfl, _, _⟩ := sort_ok hw h
  have hback {j k a b : Nat} (hjk : j ≤ k) (ha : a ∈ level n edges j) (hb : b ∈ level n edges k) :
      ¬Joined edges b a := by
    intro hab
    have hdeep := deep_succ.mpr ⟨_, hab, rfl, (mem_level.mp hb).2.1⟩
    exact absurd (deep_of_le (by omega : j + 1 ≤ k + 1) hdeep) (by simp [(mem_level.mp ha).2.2])
  rw [List.pairwise_flatten]
  constructor
  · intro wave hwave
    obtain ⟨k, _, rfl⟩ := List.mem_map.mp hwave
    apply List.pairwise_iff_getElem.mpr
    intro a b ha hb _
    exact hback le_rfl (List.getElem_mem ha) (List.getElem_mem hb)
  · rw [List.pairwise_map]
    exact List.pairwise_lt_range.imp fun hjk _ ha _ hb => hback hjk.le ha hb

/-- An index comes before another when the longest chain that ends at it is shorter, or of two of
the same length when it is lower. -/
def Earlier (edges : List Edge) (a b : Nat) : Prop :=
  ∃ j k, IsGreatest {m | ChainTo (Joined edges) m a} j ∧
    IsGreatest {m | ChainTo (Joined edges) m b} k ∧ (j < k ∨ j = k ∧ a < b)

theorem flatten_earlier (hw : Within n edges) {waves : List (List Nat)}
    (h : sort n edges = .ok waves) : waves.flatten.Pairwise (Earlier edges) := by
  have hgreatest {k : Nat} {wave : List Nat} (hk : waves[k]? = some wave) {i : Nat}
      (hi : i ∈ wave) : IsGreatest {m | ChainTo (Joined edges) m i} k :=
    ((mem_wave_iff hw h).mp ⟨wave, hk, hi⟩).2
  rw [List.pairwise_flatten]
  constructor
  · intro wave hwave
    obtain ⟨k, hk⟩ := List.mem_iff_getElem?.mp hwave
    have hsorted : wave.Pairwise (· < ·) := by
      rw [wave_eq_filter hw h hwave]
      exact List.pairwise_lt_range.filter _
    exact hsorted.imp_of_mem fun ha hb hab =>
      ⟨k, k, hgreatest hk ha, hgreatest hk hb, .inr ⟨rfl, hab⟩⟩
  · refine List.pairwise_iff_getElem.mpr fun j k hj hk hjk a ha b hb => ?_
    exact ⟨j, k, hgreatest (List.getElem?_eq_getElem hj) ha,
      hgreatest (List.getElem?_eq_getElem hk) hb, .inl hjk⟩

theorem mem_or_earlier (hw : Within n edges) {waves : List (List Nat)}
    (h : sort n edges = .ok waves) {before after : List Nat} {i j : Nat}
    (hsplit : waves.flatten = before ++ i :: after) (hj : j < n) :
    j ∈ before ∨ j = i ∨ Earlier edges i j := by
  have hmem := (flatten_perm hw h).mem_iff.mpr (List.mem_range.mpr hj)
  have hearlier := flatten_earlier hw h
  rw [hsplit] at hmem hearlier
  have hlater := (List.pairwise_cons.mp (List.pairwise_append.mp hearlier).2.1).1
  exact (List.mem_append.mp hmem).imp_right fun hrest =>
    (List.mem_cons.mp hrest).imp_right (hlater j)

theorem source_mem_of_split (hw : Within n edges) {waves : List (List Nat)}
    (h : sort n edges = .ok waves) {done rest : List Nat} {i s : Nat}
    (hsplit : waves.flatten = done ++ i :: rest) (hs : Joined edges s i) : s ∈ done := by
  have hmem : s ∈ waves.flatten := (flatten_perm hw h).mem_iff.mpr (List.mem_range.mpr (hw _ hs).1)
  have hpair := flatten_pairwise hw h
  rw [hsplit] at hmem hpair
  obtain ⟨_, hpair, _⟩ := List.pairwise_append.mp hpair
  have hlater := (List.pairwise_cons.mp hpair).1
  rcases List.mem_append.mp hmem with hdone | hrest
  · exact hdone
  · rcases List.mem_cons.mp hrest with rfl | hrest
    · obtain ⟨m, _, _, hshallow⟩ := sort_ok hw h
      have hall (k : Nat) : deep edges k s = true := by
        induction k with
        | zero => rfl
        | succ k ih => exact deep_succ.mpr ⟨_, hs, rfl, ih⟩
      exact absurd (hall m) (by simp [hshallow s (hw _ hs).1])
    · exact absurd hs (hlater s hrest)

/-! ### When the sort succeeds -/

def IsRank (edges : List Edge) (rank : Nat → Nat) : Prop :=
  ∀ e ∈ edges, rank e.source < rank e.sink

/-- The level of an index ascends along the edges that a successful sort has ordered. -/
theorem exists_rank (hw : Within n edges) {waves : List (List Nat)}
    (h : sort n edges = .ok waves) : ∃ rank, IsRank edges rank := by
  obtain ⟨m, _, _, hshallow⟩ := sort_ok hw h
  refine ⟨fun i => Nat.findGreatest (fun k => deep edges k i = true) m, fun e he => ?_⟩
  have hsource : deep edges (Nat.findGreatest (fun k => deep edges k e.source = true) m)
      e.source = true :=
    Nat.findGreatest_spec (P := fun k => deep edges k e.source = true) (Nat.zero_le m) rfl
  have hsink := deep_succ.mpr ⟨e, he, rfl, hsource⟩
  refine Nat.lt_of_succ_le (Nat.le_findGreatest ?_ hsink)
  by_contra hlt
  exact absurd (deep_of_le (Nat.le_of_not_ge hlt) hsink) (by simp [hshallow e.sink (hw e he).2])

/-- Indices that are deeper than an empty level contain a cycle: each has a predecessor among
them, and they are finitely many. -/
theorem exists_cycle {m : Nat} (hw : Within n edges) (hlevel : level n edges m = [])
    (hdeep : ∃ i < n, deep edges m i = true) : ∃ i, Relation.TransGen (Joined edges) i i := by
  by_contra hacyclic
  let r : Fin n → Fin n → Prop := fun a b => Relation.TransGen (Joined edges) a b
  have htrans : IsTrans (Fin n) r := ⟨fun _ _ _ => Relation.TransGen.trans⟩
  have hirrefl : Std.Irrefl r := ⟨fun a ha => hacyclic ⟨a, ha⟩⟩
  have hwf : WellFounded r := Finite.wellFounded_of_trans_of_irrefl r
  obtain ⟨i, hi, hd⟩ := hdeep
  obtain ⟨least, hleast, hmin⟩ :=
    hwf.has_min {a : Fin n | deep edges m a = true} ⟨⟨i, hi⟩, hd⟩
  have hnext : deep edges (m + 1) least = true := by
    by_contra hshallow
    have : (least : Nat) ∈ level n edges m :=
      mem_level.mpr ⟨least.isLt, hleast, by simpa using hshallow⟩
    simp [hlevel] at this
  obtain ⟨e, he, hsink, hsource⟩ := deep_succ.mp hnext
  refine hmin ⟨e.source, (hw e he).1⟩ hsource (.single ?_)
  rw [← hsink]
  exact he

theorem rank_lt_of_transGen {rank : Nat → Nat} (hrank : IsRank edges rank) {a b : Nat}
    (h : Relation.TransGen (Joined edges) a b) : rank a < rank b := by
  induction h with
  | single hr => exact hrank _ hr
  | tail _ hr ih => exact ih.trans (hrank _ hr)

theorem sort_ok_iff_rank (hw : Within n edges) :
    (∃ waves, sort n edges = .ok waves) ↔ ∃ rank, IsRank edges rank := by
  constructor
  · rintro ⟨waves, h⟩
    exact exists_rank hw h
  · rintro ⟨rank, hrank⟩
    cases h : sort n edges with
    | ok waves => exact ⟨waves, rfl⟩
    | error cycle =>
      obtain ⟨m, hlevel, hdeep, _⟩ := sort_error hw h
      obtain ⟨i, hi⟩ := exists_cycle hw hlevel hdeep
      exact absurd (rank_lt_of_transGen hrank hi) (lt_irrefl _)

/-- The sort fails exactly on edges with a cycle. -/
theorem sort_error_iff_cycle (hw : Within n edges) :
    (∃ cycle, sort n edges = .error cycle) ↔ ∃ i, Relation.TransGen (Joined edges) i i := by
  constructor
  · rintro ⟨cycle, h⟩
    obtain ⟨m, hlevel, hdeep, _⟩ := sort_error hw h
    exact exists_cycle hw hlevel hdeep
  · rintro ⟨i, hi⟩
    cases h : sort n edges with
    | ok waves =>
      obtain ⟨rank, hrank⟩ := exists_rank hw h
      exact absurd (rank_lt_of_transGen hrank hi) (lt_irrefl _)
    | error cycle => exact ⟨cycle, rfl⟩

end Waves

end FrameGraph
