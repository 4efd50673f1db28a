import FrameGraph.Proofs.Loop.Independence

/-! The traces of catching up. In one frame a table is called to catch up any number of times,
also once too often or not to the end, and then settles. A call steps the loops that are behind,
and these are fewer from call to call; so whoever steps in a call has stepped in all calls
before it and in the update. Settling gives every loop the flag of the update back, and leaves
those that did not step while catching up as the update left them. -/

namespace FrameGraph

variable {τ : Type} [Seconds τ] [LT τ] [LE τ] [DecidableLT τ] [DecidableLE τ] [Add τ] [Sub τ]

namespace Loop

omit [Seconds τ] [LT τ] [LE τ] [DecidableLT τ] [DecidableLE τ] [Add τ] [Sub τ] in
theorem settle_settle (l : Loop τ) : l.settle.settle = l.settle := by
  obtain ⟨config, triggered, delta, steps, frame, millis, debt, parked⟩ := l
  cases parked <;> rfl

/-- An update steps the loops that it leaves behind. -/
theorem advance_steps_of_behind {l : Loop τ} {frameTime : τ} {frame : Nat}
    (h : (l.advance frameTime frame).isBehind = true) :
    (l.advance frameTime frame).steps = l.steps + 1 := by
  have hconsecutive := l.advance_consecutive frameTime frame
  rw [step?, l.advance_eager frameTime frame h] at hconsecutive
  exact hconsecutive.last_eq

theorem isBehind_of_catchUp {l : Loop τ} (h : l.catchUp.isBehind = true) : l.isBehind = true := by
  by_contra hbehind
  rw [catchUp_of_not_behind (Bool.eq_false_iff.mpr hbehind)] at h
  exact hbehind h

end Loop

namespace LoopTable

variable {t u : LoopTable τ} {id : LoopId} {frameTime : τ}

def lags (t : LoopTable τ) (id : LoopId) : Bool := (t.get? id).any Loop.isBehind

/-- The table in a frame after so many calls to catch up. -/
def inFrame (t : LoopTable τ) (frameTime : τ) (calls : Nat) : LoopTable τ :=
  (t.update frameTime).run (List.replicate calls .catchUp)

/-! ### One call -/

omit [LT τ] [DecidableLT τ] [Sub τ] in
theorem isBehind_of_lags (h : t.lags id = true) : t.isBehind = true := by
  obtain ⟨l, hl, hbehind⟩ := (Option.any_eq_true _ _).mp h
  exact List.any_eq_true.mpr ⟨l, List.mem_of_getElem? hl, hbehind⟩

theorem apply_catchUp_get? (t : LoopTable τ) (id : LoopId) : (t.apply .catchUp).get? id =
    (t.get? id).map fun l => if t.isBehind then l.catchUp else l :=
  apply_get?_map (by simp) id

theorem lags_of_apply (h : (t.apply .catchUp).lags id = true) : t.lags id = true := by
  rw [lags, apply_catchUp_get?, Option.any_map] at h
  obtain ⟨l, hl, hbehind⟩ := (Option.any_eq_true _ _).mp h
  rw [lags, hl, Option.any_some]
  split at hbehind
  · exact Loop.isBehind_of_catchUp hbehind
  · exact hbehind

theorem stepsOf_apply (t : LoopTable τ) (id : LoopId) :
    (t.apply .catchUp).stepsOf id = t.stepsOf id + (t.lags id).toNat := by
  rw [stepsOf, stepsOf, lags, apply_catchUp_get?]
  cases hl : t.get? id with
  | none => rfl
  | some l =>
    cases hbehind : l.isBehind with
    | true =>
      have hlags : t.lags id = true := by rw [lags, hl]; exact hbehind
      have htable := isBehind_of_lags hlags
      simp [htable, hbehind, Loop.catchUp, Loop.step]
    | false =>
      have hidle : l.catchUp.steps = l.steps := by rw [Loop.catchUp_of_not_behind hbehind]; rfl
      cases t.isBehind <;> simp [hbehind, hidle]

/-- A call leaves no trace on a loop that is not behind. -/
theorem settle_apply_get? (h : t.lags id = false) :
    (t.apply .catchUp).settle.get? id = t.settle.get? id := by
  rw [settle_get?, settle_get?, apply_catchUp_get?, Option.map_map]
  refine Option.map_congr fun l hl => ?_
  have hbehind : l.isBehind = false := by simpa [lags, hl] using h
  rw [Function.comp_apply, Loop.catchUp_of_not_behind hbehind]
  split
  · exact l.settle_idle
  · rfl

omit [Seconds τ] [LT τ] [LE τ] [DecidableLT τ] [DecidableLE τ] [Add τ] [Sub τ] in
theorem settle_settle (t : LoopTable τ) : t.settle.settle = t.settle := by
  simp [settle, Function.comp_def, Loop.settle_settle]

/-! ### Calls in a frame -/

theorem inFrame_succ (t : LoopTable τ) (frameTime : τ) (calls : Nat) :
    t.inFrame frameTime (calls + 1) = (t.inFrame frameTime calls).apply .catchUp := by
  rw [inFrame, inFrame, List.replicate_succ', run, List.foldl_append]
  rfl

/-- Calls drain a table, and find nothing to do when it is drained. -/
theorem run_replicate_catchUp (t : LoopTable τ) (calls : Nat) :
    t.run (List.replicate calls .catchUp) = (t.drain calls).2 := by
  induction calls generalizing t with
  | zero => rfl
  | succ calls ih =>
    rw [List.replicate_succ]
    change (t.catchUp?.getD t).run _ = _
    cases h : t.catchUp? with
    | none => rw [Option.getD_none, ih, drain_of_none h, drain_of_none h]
    | some next => rw [Option.getD_some, ih, drain_of_some h]

theorem lags_of_later {k calls : Nat} (hle : k ≤ calls)
    (h : (t.inFrame frameTime calls).lags id = true) : (t.inFrame frameTime k).lags id = true := by
  induction hle with
  | refl => exact h
  | step _ ih => exact ih (lags_of_apply (inFrame_succ t frameTime _ ▸ h))

theorem stepsOf_update_of_lags (h : (t.update frameTime).lags id = true) :
    (t.update frameTime).stepsOf id = t.stepsOf id + 1 := by
  rw [lags, update_get?, Option.any_map] at h
  obtain ⟨l, hl, hbehind⟩ := (Option.any_eq_true _ _).mp h
  rw [stepsOf, stepsOf, update_get?, hl]
  exact Loop.advance_steps_of_behind hbehind

theorem stepsOf_update_le (t : LoopTable τ) (frameTime : τ) (id : LoopId) (calls : Nat) :
    (t.update frameTime).stepsOf id ≤ (t.inFrame frameTime calls).stepsOf id := by
  induction calls with
  | zero => exact Nat.le_refl _
  | succ calls ih =>
    rw [inFrame_succ, stepsOf_apply]
    exact ih.trans (Nat.le_add_right _ _)

/-- A loop that takes no step while catching up settles as the update left it. -/
theorem settle_inFrame_get? {calls : Nat}
    (h : (t.inFrame frameTime calls).stepsOf id = (t.update frameTime).stepsOf id) :
    (t.inFrame frameTime calls).settle.get? id = (t.update frameTime).get? id := by
  induction calls with
  | zero =>
    change (t.update frameTime).settle.get? id = _
    rw [settle_get?, update_get?, Option.map_map]
    exact Option.map_congr fun l _ => l.settle_advance frameTime t.frame
  | succ calls ih =>
    have hle := t.stepsOf_update_le frameTime id calls
    rw [inFrame_succ, stepsOf_apply] at h
    have hlags : (t.inFrame frameTime calls).lags id = false :=
      Bool.toNat_eq_zero.mp (by omega)
    rw [inFrame_succ, settle_apply_get? hlags]
    exact ih (by omega)

/-- Catching up leaves no trace in the flags. However often a table is called to catch up in a
frame, when it settles all flags are those of the update, and a loop that took no step meanwhile is
as the update left it; a loop that steps in a call has stepped in the update and in all calls
before. A call that finds nothing to do changes nothing, and neither does settling twice. -/
theorem catchUp_traceless (t : LoopTable τ) (frameTime : τ) (calls : Nat) :
    (∀ id, (t.inFrame frameTime calls).settle.isTriggered id =
      (t.update frameTime).isTriggered id) ∧
    (∀ id, (t.inFrame frameTime calls).stepsOf id = (t.update frameTime).stepsOf id →
      (t.inFrame frameTime calls).settle.get? id = (t.update frameTime).get? id) ∧
    (∀ id, (t.inFrame frameTime (calls + 1)).stepsOf id ≠ (t.inFrame frameTime calls).stepsOf id →
      (t.update frameTime).stepsOf id = t.stepsOf id + 1 ∧ ∀ k ≤ calls,
        (t.inFrame frameTime (k + 1)).stepsOf id = (t.inFrame frameTime k).stepsOf id + 1) ∧
    (∀ u : LoopTable τ, u.catchUp? = none → u.apply .catchUp = u) ∧
    ∀ u : LoopTable τ, u.settle.settle = u.settle := by
  refine ⟨fun id => ?_, fun id h => settle_inFrame_get? h, fun id h => ?_, fun u h => ?_,
    settle_settle⟩
  · rw [inFrame, run_replicate_catchUp]
    exact t.isTriggered_settle_drain frameTime id calls
  · have hlags : (t.inFrame frameTime calls).lags id = true := by
      rw [inFrame_succ, stepsOf_apply] at h
      by_contra hcaught
      rw [Bool.not_eq_true] at hcaught
      exact h (by rw [hcaught]; rfl)
    refine ⟨stepsOf_update_of_lags (lags_of_later (Nat.zero_le calls) hlags), fun k hk => ?_⟩
    rw [inFrame_succ, stepsOf_apply, lags_of_later hk hlags]
    rfl
  · rw [apply, h, Option.getD_none]

/-- One loop steps twice in the frame, one four times and one once. In the second call, which is not
the last that is asked for, only the second loop steps. When the frame settles after it the first is
triggered as in the update, and the third is as it was. -/
theorem ensemble_traceless :
    ((registering ensemble).inFrame 0.25 2).isBehind = true ∧
    ((registering ensemble).inFrame 0.25 2).isTriggered ⟨0⟩ = false ∧
    ((registering ensemble).inFrame 0.25 2).settle.isTriggered ⟨0⟩ = true ∧
    ((registering ensemble).inFrame 0.25 2).settle.get? ⟨2⟩ =
      ((registering ensemble).update 0.25).get? ⟨2⟩ ∧
    ((registering ensemble).inFrame 0.25 2).stepsOf ⟨1⟩ =
      ((registering ensemble).inFrame 0.25 1).stepsOf ⟨1⟩ + 1 := by
  obtain ⟨hflags, hidle, hsteps, _⟩ := catchUp_traceless (registering ensemble) 0.25 2
  have hupdate : ((registering ensemble).update 0.25).isTriggered ⟨0⟩ = true := by decide +kernel
  exact ⟨by decide +kernel, by decide +kernel, (hflags ⟨0⟩).trans hupdate,
    hidle ⟨2⟩ (by decide +kernel), (hsteps ⟨1⟩ (by decide +kernel)).2 1 (by decide)⟩

end LoopTable

end FrameGraph
