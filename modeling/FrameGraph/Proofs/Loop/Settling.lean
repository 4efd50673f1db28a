import Mathlib.Logic.Function.Iterate
import FrameGraph.Proofs.Loop.Extension
import FrameGraph.Proofs.Loop.Rounds

/-! What is left of a loop when its frame settles. In each round of catching up a loop steps or
stands idle, and once it stands idle it does so in all later rounds; standing idle leaves no
trace. So a settled loop does not show how many rounds there were after its own last step, and
its flag is the one that the update gave it. -/

namespace FrameGraph

theorem Loop.settle_debt {τ : Type} (l : Loop τ) : l.settle.debt = l.debt := by
  unfold settle
  split <;> rfl

variable {τ : Type} [Seconds τ] [LT τ] [LE τ] [DecidableLT τ] [DecidableLE τ] [Add τ] [Sub τ]

namespace Loop

variable {l : Loop τ} {m n : Nat} {flag : Bool}

/-! ### Rounds after the last step -/

theorem catchUp_of_not_behind (h : l.isBehind = false) : l.catchUp = l.idle := by
  rw [catchUp, h]
  rfl

/-- A loop that has caught up is never behind again before the next update. -/
theorem iterate_catchUp_not_behind (h : l.isBehind = false) (n : Nat) :
    (catchUp^[n] l).isBehind = false ∧ (catchUp^[n] l).settle = l.settle := by
  induction n with
  | zero => exact ⟨h, rfl⟩
  | succ n ih =>
    rw [Function.iterate_succ_apply', catchUp_of_not_behind ih.1, settle_idle]
    exact ih

/-- However many rounds follow after a loop has caught up, it settles the same. -/
theorem settle_iterate_catchUp (hm : (catchUp^[m] l).isBehind = false)
    (hn : (catchUp^[n] l).isBehind = false) :
    (catchUp^[n] l).settle = (catchUp^[m] l).settle := by
  wlog hle : m ≤ n generalizing m n
  · exact (this hn hm (Nat.le_of_not_le hle)).symm
  obtain ⟨k, rfl⟩ := Nat.exists_eq_add_of_le' hle
  rw [Function.iterate_add_apply]
  exact (iterate_catchUp_not_behind hm k).2

/-! ### The flag of the update -/

/-- The loop will settle with this flag, which is raised if it has yet to step. -/
structure Flagged (l : Loop τ) (flag : Bool) : Prop where
  settled : l.settle.triggered = flag
  behind : l.isBehind = true → flag = true

theorem settle_advance (l : Loop τ) (frameTime : τ) (frame : Nat) :
    (l.advance frameTime frame).settle = l.advance frameTime frame := by
  unfold advance trigger
  dsimp only
  split
  · rfl
  · split
    · split <;> rfl
    · rfl

/-- An update raises the flag of a loop which it leaves behind. -/
theorem advance_flagged (l : Loop τ) (frameTime : τ) (frame : Nat) :
    (l.advance frameTime frame).Flagged (l.advance frameTime frame).triggered :=
  ⟨congrArg triggered (l.settle_advance frameTime frame), l.advance_eager frameTime frame⟩

theorem Flagged.catchUp (h : l.Flagged flag) : l.catchUp.Flagged flag := by
  by_cases hbehind : l.isBehind = true
  · -- a step raises the flag and leaves a parked one where it is
    have hflag := h.behind hbehind
    have hsettled := h.settled
    refine ⟨?_, fun _ => hflag⟩
    cases hparked : l.parked <;> simp_all [Loop.catchUp, step, settle]
  · rw [catchUp_of_not_behind (Bool.eq_false_iff.mpr hbehind)]
    exact ⟨by rw [settle_idle, h.settled], fun hidle => h.behind hidle⟩

theorem Flagged.iterate_catchUp (h : l.Flagged flag) (n : Nat) :
    (Loop.catchUp^[n] l).Flagged flag := by
  induction n with
  | zero => exact h
  | succ n ih =>
    rw [Function.iterate_succ_apply']
    exact ih.catchUp

end Loop

namespace LoopTable

variable {t u : LoopTable τ} {id : LoopId} {n : Nat}

theorem drain_get? (t : LoopTable τ) (id : LoopId) (limit : Nat) :
    (t.drain limit).2.get? id = (t.get? id).map Loop.catchUp^[(t.drain limit).1] := by
  induction limit generalizing t with
  | zero => exact Option.map_id_apply.symm
  | succ limit ih =>
    cases h : t.catchUp? with
    | none =>
      rw [drain_of_none h]
      exact Option.map_id_apply.symm
    | some next =>
      rw [drain_of_some h, ih, catchUp?_get? h, Option.map_map]
      rfl

/-- When a loop settles its flag is that of the update, however many rounds there were. -/
theorem isTriggered_settle {frameTime : τ}
    (h : u.get? id = ((t.update frameTime).get? id).map Loop.catchUp^[n]) :
    u.settle.isTriggered id = (t.update frameTime).isTriggered id := by
  rw [isTriggered, isTriggered, settle_get?, h, update_get?]
  cases t.get? id with
  | none => rfl
  | some l => exact ((l.advance_flagged frameTime t.frame).iterate_catchUp _).settled

theorem isTriggered_settle_drain (t : LoopTable τ) (frameTime : τ) (id : LoopId) (limit : Nat) :
    ((t.update frameTime).drain limit).2.settle.isTriggered id =
      (t.update frameTime).isTriggered id :=
  isTriggered_settle (drain_get? _ id limit)

end LoopTable

end FrameGraph
