import FrameGraph.Proofs.Loop.History

/-! The steps that a loop publishes. A triggered loop is on a step with a number and a delta,
and the updates and catch-up steps that make up a frame publish one step after the other:
each takes the next number or leaves the loop idle. The last number is the loop's count of
steps, so the numbers that several frames publish run on without gap or repetition. -/

namespace FrameGraph

/-- The numbers after `first` in turn, of which the last is `last`. -/
structure Consecutive (first : Nat) (numbers : List Nat) (last : Nat) : Prop where
  numbers_eq : numbers = List.range' (first + 1) numbers.length
  last_eq : last = first + numbers.length

namespace Consecutive

variable {a b c : Nat} {l m : List Nat}

theorem nil (a : Nat) : Consecutive a [] a := ⟨rfl, rfl⟩

theorem next (a : Nat) : Consecutive a [a + 1] (a + 1) := ⟨rfl, rfl⟩

theorem append (hl : Consecutive a l b) (hm : Consecutive b m c) : Consecutive a (l ++ m) c := by
  have hstart : b + 1 = a + 1 + l.length := by
    have hlast := hl.last_eq
    omega
  constructor
  · rw [List.length_append, ← List.range'_append_1, ← hl.numbers_eq, ← hstart, ← hm.numbers_eq]
  · rw [hm.last_eq, hl.last_eq, List.length_append, Nat.add_assoc]

end Consecutive

variable {τ : Type}

namespace Loop

/-- The number and the delta of the step that a triggered loop is on. -/
def step? (l : Loop τ) : Option (Nat × τ) := if l.triggered then some (l.steps, l.delta) else none

/-- A triggered loop has its timestep as delta. -/
def IsRegular (l : Loop τ) : Prop := l.triggered = true → l.delta = l.config.timestep

theorem consecutive_of_triggered {l : Loop τ} {a : Nat} (h : l.triggered = true)
    (hsteps : l.steps = a + 1) : Consecutive a (l.step?.toList.map Prod.fst) l.steps := by
  rw [step?, if_pos h, hsteps]
  exact .next a

theorem consecutive_of_idle {l : Loop τ} {a : Nat} (h : l.triggered = false)
    (hsteps : l.steps = a) : Consecutive a (l.step?.toList.map Prod.fst) l.steps := by
  rw [step?, h, hsteps]
  exact .nil a

variable [Seconds τ] [LT τ] [LE τ] [DecidableLT τ] [DecidableLE τ] [Add τ] [Sub τ]

theorem advance_consecutive (l : Loop τ) (frameTime : τ) (frame : Nat) :
    Consecutive l.steps ((l.advance frameTime frame).step?.toList.map Prod.fst)
      (l.advance frameTime frame).steps := by
  unfold advance trigger
  dsimp only
  split
  · exact consecutive_of_triggered rfl rfl
  · split
    · split <;> exact consecutive_of_triggered rfl rfl
    · exact consecutive_of_idle rfl rfl

theorem catchUp_consecutive (l : Loop τ) :
    Consecutive l.steps (l.catchUp.step?.toList.map Prod.fst) l.catchUp.steps := by
  unfold catchUp
  split
  · exact consecutive_of_triggered rfl rfl
  · exact consecutive_of_idle rfl rfl

theorem advance_regular {l : Loop τ} (hfixed : l.config.isVariable = false)
    (hmode : l.config.catchUp ≠ .fireAndForget) (frameTime : τ) (frame : Nat) :
    (l.advance frameTime frame).IsRegular := by
  unfold advance trigger
  simp only [hfixed, hmode, Bool.false_eq_true, if_false]
  split
  · exact fun _ => rfl
  · intro h
    cases h

theorem catchUp_regular (l : Loop τ) : l.catchUp.IsRegular := by
  unfold catchUp
  split
  · exact fun _ => rfl
  · intro h
    cases h

omit [Seconds τ] [LT τ] [LE τ] [DecidableLT τ] [DecidableLE τ] [Add τ] [Sub τ] in
theorem settle_steps (l : Loop τ) : l.settle.steps = l.steps := by
  unfold settle
  split <;> rfl

end Loop

namespace LoopTable

def stepsOf (t : LoopTable τ) (id : LoopId) : Nat := ((t.get? id).map Loop.steps).getD 0

def step? (t : LoopTable τ) (id : LoopId) : Option (Nat × τ) := (t.get? id).bind Loop.step?

variable {t u : LoopTable τ} {id : LoopId}

theorem mem_step? {step : Nat × τ} : step ∈ (t.step? id).toList ↔
    ∃ l, t.get? id = some l ∧ l.triggered = true ∧ (l.steps, l.delta) = step := by
  simp [step?, Loop.step?, Option.bind_eq_some_iff]

theorem step?_isSome (t : LoopTable τ) (id : LoopId) : (t.step? id).isSome = t.isTriggered id := by
  rw [step?, isTriggered]
  cases t.get? id with
  | none => rfl
  | some l => cases h : l.triggered <;> simp [Loop.step?, h]

/-- What each loop does by itself the table does for every number. -/
theorem consecutive_of_get? {f : Loop τ → Loop τ} (h : u.get? id = (t.get? id).map f)
    (hf : ∀ l : Loop τ, Consecutive l.steps ((f l).step?.toList.map Prod.fst) (f l).steps) :
    Consecutive (t.stepsOf id) ((u.step? id).toList.map Prod.fst) (u.stepsOf id) := by
  unfold stepsOf step?
  rw [h]
  cases t.get? id with
  | none => exact .nil 0
  | some l => exact hf l

theorem settle_stepsOf (t : LoopTable τ) (id : LoopId) : t.settle.stepsOf id = t.stepsOf id := by
  rw [stepsOf, stepsOf, settle_get?, Option.map_map]
  exact congrArg (fun f => ((t.get? id).map f).getD 0) (funext Loop.settle_steps)

variable [Seconds τ] [LE τ] [DecidableLE τ]

/-- The loop is registered, and a fixed one that keeps its debt has this timestep. -/
def Paces (t : LoopTable τ) (id : LoopId) (delta : τ) : Prop :=
  ∃ l, t.get? id = some l ∧ (l.config.isVariable = false → l.config.catchUp ≠ .fireAndForget →
    delta = l.config.timestep)

theorem Paces.congr {delta : τ} (h : t.Paces id delta)
    (hconfig : (u.get? id).map Loop.config = (t.get? id).map Loop.config) : u.Paces id delta := by
  obtain ⟨l, hl, hdelta⟩ := h
  rw [hl] at hconfig
  obtain ⟨m, hm, hsame⟩ := Option.map_eq_some_iff.mp hconfig
  exact ⟨m, hm, hsame ▸ hdelta⟩

variable [LT τ] [DecidableLT τ] [Add τ] [Sub τ]

theorem update_config (t : LoopTable τ) (frameTime : τ) (id : LoopId) :
    ((t.update frameTime).get? id).map Loop.config = (t.get? id).map Loop.config := by
  rw [update_get?, Option.map_map]
  exact congrArg (fun f => (t.get? id).map f) (funext fun l => l.advance_config _ _)

theorem catchUp?_config (h : t.catchUp? = some u) (id : LoopId) :
    (u.get? id).map Loop.config = (t.get? id).map Loop.config := by
  rw [catchUp?_get? h, Option.map_map]
  exact congrArg (fun f => (t.get? id).map f) (funext Loop.catchUp_config)

theorem drain_config (t : LoopTable τ) (id : LoopId) (limit : Nat) :
    ((t.drain limit).2.get? id).map Loop.config = (t.get? id).map Loop.config := by
  induction limit generalizing t with
  | zero => rfl
  | succ limit ih =>
    cases h : t.catchUp? with
    | none => rw [drain_of_none h]
    | some next => rw [drain_of_some h, ih, catchUp?_config h]

theorem frame_config (t : LoopTable τ) (frameTime : τ) (id : LoopId) (limit : Nat) :
    (((t.update frameTime).drain limit).2.settle.get? id).map Loop.config =
      (t.get? id).map Loop.config := by
  have hsettle : Loop.config ∘ Loop.settle = (Loop.config : Loop τ → LoopConfig τ) :=
    funext Loop.settle_config
  rw [settle_get?, Option.map_map, hsettle, drain_config, update_config]

theorem register_keeps {config : LoopConfig τ} {other : LoopId}
    (h : t.register config = .ok (u, other)) (id : LoopId) :
    u.stepsOf id = t.stepsOf id ∧ ∀ l, t.get? id = some l → u.get? id = some l := by
  have happly : t.apply (.register config) = u := by simp [apply, h]
  cases hbefore : t.get? id with
  | some l =>
    have hafter : u.get? id = some l := happly ▸ apply_get? hbefore (.register config)
    refine ⟨?_, fun m hm => hm ▸ hafter⟩
    rw [stepsOf, stepsOf, hafter, hbefore]
  | none =>
    refine ⟨?_, fun l hl => absurd hl.symm (Option.some_ne_none l)⟩
    rw [stepsOf, stepsOf, hbefore]
    cases hafter : u.get? id with
    | none => rfl
    | some l =>
      obtain ⟨_, _, rfl⟩ := apply_get?_new hbefore (happly.symm ▸ hafter)
      rfl

/-- The steps that a loop takes while its table catches up, at most so many times. -/
def catchUpSteps (t : LoopTable τ) (id : LoopId) : Nat → List (Nat × τ)
  | 0 => []
  | limit + 1 =>
    match t.catchUp? with
    | none => []
    | some next => (next.step? id).toList ++ next.catchUpSteps id limit

/-- The steps that a loop takes in a frame whose update left the table so. -/
def frameSteps (t : LoopTable τ) (id : LoopId) (limit : Nat) : List (Nat × τ) :=
  (t.step? id).toList ++ t.catchUpSteps id limit

theorem catchUpSteps_consecutive (t : LoopTable τ) (id : LoopId) (limit : Nat) :
    Consecutive (t.stepsOf id) ((t.catchUpSteps id limit).map Prod.fst)
      ((t.drain limit).2.stepsOf id) := by
  induction limit generalizing t with
  | zero => exact .nil _
  | succ limit ih =>
    cases h : t.catchUp? with
    | none =>
      rw [catchUpSteps, h, drain_of_none h]
      exact .nil _
    | some next =>
      rw [catchUpSteps, h, drain_of_some h, List.map_append]
      exact (consecutive_of_get? (catchUp?_get? h id) Loop.catchUp_consecutive).append (ih next)

theorem frameSteps_consecutive (t : LoopTable τ) (frameTime : τ) (id : LoopId) (limit : Nat) :
    Consecutive (t.stepsOf id) (((t.update frameTime).frameSteps id limit).map Prod.fst)
      (((t.update frameTime).drain limit).2.stepsOf id) := by
  rw [frameSteps, List.map_append]
  exact (consecutive_of_get? (t.update_get? frameTime id) fun l =>
    l.advance_consecutive frameTime t.frame).append (catchUpSteps_consecutive _ id limit)

/-- A step of catching up goes by the timestep. -/
theorem catchUpSteps_paced {limit : Nat} {step : Nat × τ}
    (hstep : step ∈ t.catchUpSteps id limit) : t.Paces id step.2 := by
  induction limit generalizing t with
  | zero => cases hstep
  | succ limit ih =>
    cases h : t.catchUp? with
    | none =>
      rw [catchUpSteps, h] at hstep
      cases hstep
    | some next =>
      rw [catchUpSteps, h] at hstep
      have hconfig := catchUp?_config h id
      rcases List.mem_append.mp hstep with hnow | hlater
      · obtain ⟨m, hm, htriggered, rfl⟩ := mem_step?.mp hnow
        obtain ⟨l, _, rfl⟩ := Option.map_eq_some_iff.mp ((catchUp?_get? h id).symm.trans hm)
        exact Paces.congr ⟨l.catchUp, hm, fun _ _ => l.catchUp_regular htriggered⟩ hconfig.symm
      · exact (ih hlater).congr hconfig.symm

/-- The delta of a step is the timestep of a fixed loop that keeps its debt. -/
theorem frameSteps_paced {frameTime : τ} {limit : Nat} {step : Nat × τ}
    (hstep : step ∈ (t.update frameTime).frameSteps id limit) : t.Paces id step.2 := by
  have hconfig := t.update_config frameTime id
  rcases List.mem_append.mp hstep with hnow | hlater
  · obtain ⟨m, hm, htriggered, rfl⟩ := mem_step?.mp hnow
    obtain ⟨l, hl, rfl⟩ := Option.map_eq_some_iff.mp ((t.update_get? frameTime id).symm.trans hm)
    refine ⟨l, hl, fun hfixed hmode => ?_⟩
    exact (Loop.advance_regular hfixed hmode _ _ htriggered).trans (by rw [l.advance_config])
  · exact (catchUpSteps_paced hlater).congr hconfig.symm

end LoopTable

end FrameGraph
