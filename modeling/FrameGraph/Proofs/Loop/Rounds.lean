import Mathlib.Data.Finset.Lattice.Fold
import Mathlib.Order.Lattice.Nat
import FrameGraph.Proofs.Loop.Steps

/-! The rounds of a frame: the tables that its passes see, that of the update and one for each
step of catching up. A loop that sits out one round sits out all that follow, so the rounds
in which it steps are the first ones, and as many as its count of steps grows. Whatever follows
several loops is due in as many rounds as the busiest of them, not in their sum; and
there are as many rounds as the busiest of all loops takes steps, but at least one. -/

namespace FrameGraph

/-! ### Conditions that do not come back -/

section Lasting

variable {α ι : Type} {p : α → Bool} {l : List α}

/-- A condition that fails from some place on holds at as many places as come before. -/
theorem lt_countP_iff (h : l.Pairwise fun a b => p b = true → p a = true) {k : Nat}
    (hk : k < l.length) : p l[k] = true ↔ k < l.countP p := by
  induction l generalizing k with
  | nil => cases hk
  | cons a rest ih =>
    obtain ⟨hfirst, hrest⟩ := List.pairwise_cons.mp h
    cases ha : p a with
    | true =>
      rw [List.countP_cons_of_pos ha]
      cases k with
      | zero => simp [ha]
      | succ k => simpa using ih hrest (Nat.lt_of_succ_lt_succ hk)
    | false =>
      have hnone : (a :: rest).countP p = 0 := by
        refine List.countP_eq_zero.mpr fun b hb hpb => ?_
        rcases List.mem_cons.mp hb with rfl | hb
        · exact Bool.false_ne_true (ha.symm.trans hpb)
        · exact Bool.false_ne_true (ha.symm.trans (hfirst b hb hpb))
      rw [hnone]
      exact iff_of_false (List.countP_eq_zero.mp hnone _ (List.getElem_mem hk)) (Nat.not_lt_zero k)

/-- Of several such conditions some holds at as many places as the longest one. -/
theorem countP_any_eq_sup [DecidableEq ι] {p : ι → α → Bool} (ids : List ι)
    (h : ∀ i ∈ ids, l.Pairwise fun a b => p i b = true → p i a = true) :
    l.countP (fun a => ids.any fun i => p i a) = ids.toFinset.sup fun i => l.countP (p i) := by
  have hany : l.Pairwise fun a b =>
      (ids.any fun i => p i b) = true → (ids.any fun i => p i a) = true := by
    rw [List.pairwise_iff_getElem]
    intro j k hj hk hjk hholds
    obtain ⟨i, hi, hp⟩ := List.any_eq_true.mp hholds
    exact List.any_eq_true.mpr ⟨i, hi, List.pairwise_iff_getElem.mp (h i hi) j k hj hk hjk hp⟩
  refine le_antisymm (le_of_not_gt fun hlt => ?_) (Finset.sup_le fun i hi => ?_)
  · obtain ⟨i, hi, hp⟩ := List.any_eq_true.mp
      ((lt_countP_iff hany (hlt.trans_le List.countP_le_length)).mpr hlt)
    have hcount := (lt_countP_iff (h i hi) (hlt.trans_le List.countP_le_length)).mp hp
    exact absurd hcount (Nat.not_lt.mpr
      (Finset.le_sup (f := fun i => l.countP (p i)) (List.mem_toFinset.mpr hi)))
  · exact List.countP_mono_left fun a _ hp =>
      List.any_eq_true.mpr ⟨i, List.mem_toFinset.mp hi, hp⟩

end Lasting

variable {τ : Type}

section Timing

variable [Seconds τ] [LT τ] [LE τ] [DecidableLT τ] [DecidableLE τ] [Add τ] [Sub τ]

namespace Loop

def IsEager (l : Loop τ) : Prop := l.isBehind = true → l.triggered = true

theorem advance_eager (l : Loop τ) (frameTime : τ) (frame : Nat) :
    (l.advance frameTime frame).IsEager := by
  unfold advance trigger
  dsimp only
  split
  · exact fun _ => rfl
  · split
    · split <;> exact fun _ => rfl
    · next howes =>
      intro hbehind
      simp only [isBehind, owes, Bool.and_eq_true] at hbehind howes
      exact absurd hbehind.2 howes

theorem catchUp_eager (l : Loop τ) : l.catchUp.IsEager := by
  unfold catchUp
  split
  · exact fun _ => rfl
  · next hbehind => exact fun h => absurd h hbehind

theorem catchUp_triggered (l : Loop τ) : l.catchUp.triggered = l.isBehind := by
  cases h : l.isBehind <;> simp [catchUp, h, step, idle]

end Loop

namespace LoopTable

variable {t u : LoopTable τ} {id : LoopId}

/-- The tables after each step of catching up, at most so many. -/
def catchUpRounds (t : LoopTable τ) : Nat → List (LoopTable τ)
  | 0 => []
  | limit + 1 =>
    match t.catchUp? with
    | none => []
    | some next => next :: next.catchUpRounds limit

/-- The tables that the passes of a frame see whose update left the table so. -/
def rounds (t : LoopTable τ) (limit : Nat) : List (LoopTable τ) := t :: t.catchUpRounds limit

theorem catchUpRounds_of_none (h : t.catchUp? = none) (limit : Nat) :
    t.catchUpRounds limit = [] := by
  cases limit <;> simp [catchUpRounds, h]

theorem length_catchUpRounds (t : LoopTable τ) (limit : Nat) :
    (t.catchUpRounds limit).length = (t.drain limit).1 := by
  induction limit generalizing t with
  | zero => rfl
  | succ limit ih =>
    cases h : t.catchUp? with
    | none => rw [catchUpRounds_of_none h, drain_of_none h]; rfl
    | some next => simp [catchUpRounds, h, drain_of_some h, ih]

theorem length_frameSteps (t : LoopTable τ) (id : LoopId) (limit : Nat) :
    (t.frameSteps id limit).length = (t.rounds limit).countP fun u => u.isTriggered id := by
  have hstep (t : LoopTable τ) :
      (t.step? id).toList.length = if t.isTriggered id then 1 else 0 := by
    rw [← step?_isSome]
    cases t.step? id <;> rfl
  have hcatchUp : (t.catchUpSteps id limit).length =
      (t.catchUpRounds limit).countP fun u => u.isTriggered id := by
    induction limit generalizing t with
    | zero => rfl
    | succ limit ih =>
      cases h : t.catchUp? with
      | none => simp [catchUpSteps, catchUpRounds, h]
      | some next =>
        simp only [catchUpSteps, catchUpRounds, h, List.length_append, hstep, ih, List.countP_cons]
        exact Nat.add_comm _ _
  rw [frameSteps, rounds, List.length_append, hstep, hcatchUp, List.countP_cons, Nat.add_comm]

def IsEager (t : LoopTable τ) : Prop := ∀ l ∈ t.loops, l.IsEager

theorem update_eager (t : LoopTable τ) (frameTime : τ) : (t.update frameTime).IsEager := by
  intro l hl
  obtain ⟨m, _, rfl⟩ := List.mem_map.mp hl
  exact m.advance_eager _ _

theorem catchUp?_eager (h : t.catchUp? = some u) : u.IsEager := by
  obtain ⟨_, rfl⟩ := catchUp?_eq_some h
  intro l hl
  obtain ⟨m, _, rfl⟩ := List.mem_map.mp hl
  exact m.catchUp_eager

/-- Whoever steps when the table catches up was on a step before. -/
theorem IsEager.triggered_of_catchUp (ht : t.IsEager) (h : t.catchUp? = some u)
    (htriggered : u.isTriggered id = true) : t.isTriggered id = true := by
  rw [isTriggered, catchUp?_get? h, Option.any_map] at htriggered
  obtain ⟨l, hl, htriggered⟩ := (Option.any_eq_true _ _).mp htriggered
  have hbehind : l.isBehind = true := l.catchUp_triggered ▸ htriggered
  rw [isTriggered, hl]
  exact ht l (List.mem_of_getElem? hl) hbehind

/-- A loop that sits out a round sits out the later ones. -/
theorem IsEager.rounds_pairwise (ht : t.IsEager) (limit : Nat) (id : LoopId) :
    (t.rounds limit).Pairwise fun a b => b.isTriggered id = true → a.isTriggered id = true := by
  induction limit generalizing t with
  | zero => exact List.pairwise_singleton _ _
  | succ limit ih =>
    rw [rounds]
    cases h : t.catchUp? with
    | none =>
      rw [catchUpRounds_of_none h]
      exact List.pairwise_singleton _ _
    | some next =>
      have hrest := ih (catchUp?_eager h)
      rw [rounds] at hrest
      simp only [catchUpRounds, h]
      refine List.pairwise_cons.mpr ⟨fun b hb htriggered => ?_, hrest⟩
      refine ht.triggered_of_catchUp h ?_
      rcases List.mem_cons.mp hb with rfl | hb
      · exact htriggered
      · exact (List.pairwise_cons.mp hrest).1 b hb htriggered

/-- In every round of catching up some loop is on a step. -/
theorem exists_triggered {limit : Nat} (hu : u ∈ t.catchUpRounds limit) :
    ∃ i < t.loops.length, u.isTriggered ⟨i⟩ = true := by
  induction limit generalizing t with
  | zero => cases hu
  | succ limit ih =>
    cases h : t.catchUp? with
    | none =>
      rw [catchUpRounds_of_none h] at hu
      cases hu
    | some next =>
      simp only [catchUpRounds, h] at hu
      rcases List.mem_cons.mp hu with rfl | hu
      · obtain ⟨hbehind, _⟩ := catchUp?_eq_some h
        obtain ⟨l, hl, hl'⟩ := List.any_eq_true.mp hbehind
        obtain ⟨i, hi, rfl⟩ := List.getElem_of_mem hl
        refine ⟨i, hi, ?_⟩
        rw [isTriggered, catchUp?_get? h, get?, List.getElem?_eq_getElem hi]
        exact (t.loops[i].catchUp_triggered).trans hl'
      · exact length_catchUp? h ▸ ih hu

/-- There are as many rounds as the busiest loop takes steps, but at least one. -/
theorem IsEager.length_rounds (ht : t.IsEager) (limit : Nat) :
    (t.rounds limit).length = max 1 ((Finset.range t.loops.length).sup fun i =>
      (t.frameSteps ⟨i⟩ limit).length) := by
  simp only [length_frameSteps]
  refine le_antisymm (le_of_not_gt fun hlt => ?_) (max_le ?_ (Finset.sup_le fun i _ => ?_))
  · -- the last round is one of catching up, and whoever steps in it has stepped in all
    obtain ⟨hone, hsup⟩ := max_lt_iff.mp hlt
    have hlength : (t.rounds limit).length = (t.catchUpRounds limit).length + 1 := rfl
    obtain ⟨k, hk⟩ : ∃ k, (t.catchUpRounds limit).length = k + 1 :=
      Nat.exists_eq_add_one_of_ne_zero (by omega)
    obtain ⟨i, hi, htriggered⟩ := exists_triggered
      (List.getElem_mem (l := t.catchUpRounds limit) (n := k) (by omega))
    have hcount := (lt_countP_iff (ht.rounds_pairwise limit ⟨i⟩) (k := k + 1) (by omega)).mp
      htriggered
    have hle := Finset.le_sup (f := fun i => (t.rounds limit).countP fun u => u.isTriggered ⟨i⟩)
      (Finset.mem_range.mpr hi)
    omega
  · exact Nat.succ_le_of_lt (Nat.zero_lt_succ _)
  · exact List.countP_le_length

end LoopTable

end Timing

end FrameGraph
