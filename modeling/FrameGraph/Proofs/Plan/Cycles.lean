import Mathlib.Data.List.Chain
import FrameGraph.Proofs.Plan.Layering

/-! The cycle that a failed sort reports. Each index that is left over has a predecessor
that is left over too, since a placed one no longer counts, so a walk along predecessors
never stops and must return to an index it has seen. The walk is kept newest first, which
is the direction of the edges, and the part of it since the first visit closes a circle.
What leads to the circle, or away from it, is cut off. -/

namespace FrameGraph

/-- A relation leads around a list of distinct elements: from each to the next, and from the last to
the first. -/
structure IsCircle {α : Type*} (r : α → α → Prop) (c : List α) : Prop where
  nonempty : c ≠ []
  nodup : c.Nodup
  around : (c ++ c.take 1).IsChain r

namespace IsCircle

variable {α β : Type*} {r : α → α → Prop} {s : β → β → Prop} {c : List α}

/-- A path back to where it began goes around a circle. -/
theorem of_return {a : α} {l : List α} (hnodup : (l ++ [a]).Nodup)
    (hpath : (a :: (l ++ [a])).IsChain r) : IsCircle r (l ++ [a]) := by
  refine ⟨by simp, hnodup, List.isChain_append.mpr ⟨hpath.tail, ?_, fun x hx y hy => ?_⟩⟩
  · cases l <;> exact List.isChain_singleton _
  · obtain rfl : a = x := by simpa using hx
    refine hpath.rel_head? ?_
    cases l <;> simpa using hy

/-- Every element of a circle leads back to itself. -/
theorem transGen (h : IsCircle r c) {a : α} (ha : a ∈ c) : Relation.TransGen r a a := by
  obtain ⟨first, rest, rfl⟩ := List.exists_cons_of_ne_nil h.nonempty
  have hpairs : (first :: rest ++ [first]).Pairwise (Relation.TransGen r) :=
    List.isChain_iff_pairwise.mp (h.around.imp fun _ _ => .single)
  obtain ⟨hinner, _, hback⟩ := List.pairwise_append.mp hpairs
  have hreturn {b : α} (hb : b ∈ first :: rest) : Relation.TransGen r b first :=
    hback b hb first (List.mem_singleton_self first)
  rcases List.mem_cons.mp ha with rfl | hrest
  · exact hreturn ha
  · exact (hreturn ha).trans ((List.pairwise_cons.mp hinner).1 a hrest)

theorem map (h : IsCircle r c) (f : α → β) (hf : ∀ a b, r a b → s (f a) (f b))
    (hinj : ∀ a ∈ c, ∀ b ∈ c, f a = f b → a = b) : IsCircle s (c.map f) := by
  refine ⟨by simpa using h.nonempty, h.nodup.map_on hinj, ?_⟩
  rw [← List.map_take, ← List.map_append]
  exact List.isChain_map_of_isChain f hf h.around

theorem two_le_length (h : IsCircle r c) : 2 ≤ (c ++ c.take 1).length := by
  obtain ⟨first, rest, rfl⟩ := List.exists_cons_of_ne_nil h.nonempty
  simp

theorem ends (h : IsCircle r c) :
    (c ++ c.take 1).head? = (c ++ c.take 1).getLast? ∧ (c ++ c.take 1).dropLast = c := by
  obtain ⟨first, rest, rfl⟩ := List.exists_cons_of_ne_nil h.nonempty
  exact ⟨List.getLast?_concat.symm, List.dropLast_concat⟩

end IsCircle

namespace Waves

variable {n : Nat} {edges : List Edge}

/-! ### The walk -/

/-- A walk that can always go on, among finitely many indices, closes a circle. The path holds the
indices that it has left, newest first, each after the one it was reached from. -/
theorem chase_isCircle {next : Nat → Option Nat} (inside : Nat → Prop)
    (hbound : ∀ i, inside i → i < n) (hnext : ∀ i, inside i → ∃ p, next i = some p ∧ inside p)
    (fuel : Nat) {path : List Nat} {current : Nat} (hnodup : path.Nodup)
    (hinside : ∀ i ∈ current :: path, inside i)
    (hpath : (current :: path).IsChain fun p i => next i = some p)
    (hfuel : n < fuel + path.length) :
    IsCircle (fun p i => next i = some p) (chase next fuel path current) ∧
      ∀ i ∈ chase next fuel path current, inside i := by
  induction fuel generalizing path current with
  | zero =>
    -- a path without repetition is no longer than there are indices
    have hsub : path ⊆ List.range n := fun i hi =>
      List.mem_range.mpr (hbound i (hinside i (List.mem_cons_of_mem _ hi)))
    have hle := (hnodup.subperm hsub).length_le
    rw [List.length_range] at hle
    omega
  | succ fuel ih =>
    unfold chase
    split
    · next hseen =>
      obtain ⟨front, back, rfl, hfront⟩ :=
        List.eq_append_cons_of_mem (List.contains_iff_mem.mp hseen)
      have htake : (front ++ current :: back).take ((front ++ current :: back).idxOf current + 1) =
          front ++ [current] := by
        rw [List.idxOf_append_of_notMem hfront, List.idxOf_cons_self, List.take_append]
        simp
      have hsub : (front ++ [current]).Sublist (front ++ current :: back) := by simp
      have hclosed : (current :: (front ++ [current])).IsChain fun p i => next i = some p :=
        hpath.prefix ⟨back, by simp⟩
      rw [htake]
      refine ⟨.of_return (hnodup.sublist hsub) hclosed, fun i hi => ?_⟩
      exact hinside i (List.mem_cons_of_mem _ (hsub.subset hi))
    · next hnew =>
      obtain ⟨previous, hprevious, hin⟩ := hnext current (hinside current List.mem_cons_self)
      rw [hprevious]
      refine ih (List.nodup_cons.mpr ⟨?_, hnodup⟩) (List.forall_mem_cons.mpr ⟨hin, hinside⟩) ?_ ?_
      · simpa using hnew
      · exact List.isChain_cons_cons.mpr ⟨hprevious, hpath⟩
      · simp only [List.length_cons]
        omega

/-! ### Predecessors -/

theorem predecessor?_eq_some {left : List Nat} {i p : Nat}
    (h : predecessor? edges left i = some p) : Joined edges p i ∧ left.getD p 0 ≠ 0 := by
  obtain ⟨e, he, rfl⟩ := List.mem_map.mp (List.min?_mem h)
  obtain ⟨hmem, hleft⟩ := List.mem_filter.mp he
  simp only [Bool.and_eq_true, beq_iff_eq, bne_iff_ne] at hleft
  obtain ⟨⟨rfl, hsource⟩, _⟩ := hleft
  exact ⟨hmem, hsource⟩

/-- An index is left over when it is deeper than an empty level. -/
theorem pending_ne_zero {m i : Nat} (hlevel : level n edges m = []) (hi : i < n) :
    (pending n edges m).getD i 0 ≠ 0 ↔ deep edges m i = true := by
  rw [Ne, pending_eq_zero hi, Bool.not_eq_false]
  refine ⟨deep_of_succ, fun hdeep => ?_⟩
  by_contra hshallow
  have hmem : i ∈ level n edges m := mem_level.mpr ⟨hi, hdeep, by simpa using hshallow⟩
  simp [hlevel] at hmem

theorem exists_predecessor? (hw : Within n edges) {m i : Nat} (hlevel : level n edges m = [])
    (hi : i < n ∧ deep edges m i = true) :
    ∃ p, predecessor? edges (pending n edges m) i = some p ∧ p < n ∧ deep edges m p = true := by
  have hleft := (pending_ne_zero hlevel hi.1).mpr hi.2
  obtain ⟨e, he, rfl, hdeep⟩ : ∃ e ∈ edges, e.sink = i ∧ deep edges m e.source = true := by
    rw [Ne, pending_eq_zero hi.1, Bool.not_eq_false] at hleft
    exact deep_succ.mp hleft
  cases hfound : predecessor? edges (pending n edges m) e.sink with
  | none =>
    have hsource := (pending_ne_zero hlevel (hw e he).1).mpr hdeep
    rw [predecessor?, List.min?_eq_none_iff, List.map_eq_nil_iff, List.filter_eq_nil_iff] at hfound
    exact absurd (hfound e he) (by simp_all)
  | some p =>
    obtain ⟨hjoined, hp⟩ := predecessor?_eq_some hfound
    have hlt := (hw _ hjoined).1
    exact ⟨p, rfl, hlt, (pending_ne_zero hlevel hlt).mp hp⟩

/-- A failed sort reports a circle of edges. -/
theorem sort_error_isCircle (hw : Within n edges) {c : List Nat} (h : sort n edges = .error c) :
    IsCircle (Joined edges) c ∧ ∀ i ∈ c, i < n := by
  obtain ⟨m, hlevel, ⟨i, hi, hdeep⟩, rfl⟩ := sort_error hw h
  have hget {k : Nat} (hk : k < (pending n edges m).length) :
      (pending n edges m)[k] ≠ 0 ↔ deep edges m k = true := by
    rw [List.getElem_eq_getD 0]
    exact pending_ne_zero hlevel (by simpa using hk)
  unfold cycle
  split
  · next hnone =>
    have hlt : i < (pending n edges m).length := by simpa using hi
    have hzero := List.findIdx?_eq_none_iff.mp hnone _ (List.getElem_mem hlt)
    exact absurd (by simpa using hzero) ((hget hlt).mpr hdeep)
  · next start hstart =>
    obtain ⟨hlt, hleft, _⟩ := List.findIdx?_eq_some_iff_getElem.mp hstart
    have hinside : start < n ∧ deep edges m start = true :=
      ⟨by simpa using hlt, (hget hlt).mp (by simpa using hleft)⟩
    obtain ⟨hcircle, hbelow⟩ := chase_isCircle (fun i => i < n ∧ deep edges m i = true)
      (fun _ hi => hi.1) (fun _ => exists_predecessor? hw hlevel)
      ((pending n edges m).length + 1) List.nodup_nil (by simpa using hinside)
      (List.isChain_singleton start) (by simp)
    exact ⟨⟨hcircle.nonempty, hcircle.nodup,
      hcircle.around.imp fun _ _ hp => (predecessor?_eq_some hp).1⟩, fun i hi => (hbelow i hi).1⟩

end Waves

end FrameGraph
