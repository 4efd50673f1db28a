import Mathlib.Data.Int.ConditionallyCompleteOrder
import FrameGraph.Proofs.Loop.Drain
import FrameGraph.Proofs.Loop.Independence

/-! The same time in different frames, in exact arithmetic. A loop that catches up after every
frame ends with about as many steps as its timestep goes into the time that it was given,
wherever the frames are cut. A cut decides only how often a step is taken early, by no more
than the tolerance, and what is forgiven so is not owed again; many early steps make up for one.
Where timestep and frame times are multiples of a grid coarser than the tolerance no step is
early, and the cut does not matter. -/

namespace FrameGraph

namespace Loop

variable {l m : Loop ℚ} {total time grid : ℚ} {frame : ℕ}

theorem accepted_of_le {config : LoopConfig ℚ} (hpos : 0 < time) (hcap : time ≤ config.cap) :
    config.accepted time = time := by
  have hpositive : LoopConfig.positive time = time := if_pos hpos
  rw [LoopConfig.accepted, hpositive]
  exact if_neg (not_lt.mpr hcap)

theorem not_variable {config : LoopConfig ℚ} (hts : 0 < config.timestep) :
    config.isVariable = false := by
  have hle : decide (config.timestep ≤ Seconds.zero) = false := decide_eq_false (not_le.mpr hts)
  simp [LoopConfig.isVariable, hle]

theorem advance_of_fixed (hfixed : l.config.isVariable = false)
    (hmode : l.config.catchUp ≠ .fireAndForget) (time : ℚ) (frame : ℕ) :
    l.advance time frame =
      let given : Loop ℚ :=
        { l with debt := l.debt + l.config.accepted time, parked := none, frame }
      if given.owes then given.step else { given with triggered := false } := by
  simp only [advance, trigger, hfixed, hmode, Bool.false_eq_true, if_false]

/-! ### Time on a grid -/

/-- Timestep and debt are multiples of a grid, and no step was early. -/
structure OnGrid (grid : ℚ) (l : Loop ℚ) (total : ℚ) : Prop where
  timestep : ∃ n : ℕ, l.config.timestep = n * grid
  debt : ∃ n : ℕ, l.debt = n * grid
  spent : l.steps * l.config.timestep + l.debt = total

theorem OnGrid.congr (h : l.OnGrid grid total) (hconfig : m.config = l.config)
    (hsteps : m.steps = l.steps) (hdebt : m.debt = l.debt) : m.OnGrid grid total := by
  constructor
  · rw [hconfig]
    exact h.timestep
  · rw [hdebt]
    exact h.debt
  · rw [hconfig, hsteps, hdebt]
    exact h.spent

theorem OnGrid.ofConfig {config : LoopConfig ℚ} (hts : ∃ n : ℕ, config.timestep = n * grid) :
    (Loop.ofConfig config).OnGrid grid 0 :=
  ⟨hts, ⟨0, by simp [Loop.ofConfig, Seconds.zero]⟩, by simp [Loop.ofConfig, Seconds.zero]⟩

/-- On a coarse grid a step is owed only when the debt covers it. -/
theorem OnGrid.covered (h : l.OnGrid grid total) (hgrid : Seconds.tolerance < grid)
    (howes : l.owes = true) :
    ∃ n : ℕ, l.debt - l.config.timestep = n * grid ∧ l.paid = l.debt - l.config.timestep := by
  obtain ⟨k, hk⟩ := h.timestep
  obtain ⟨n, hn⟩ := h.debt
  have hle : k ≤ n := by
    have hlt : (k : ℚ) * grid < (n + 1) * grid := by
      have howes := owes_iff.mp howes
      rw [hk, hn] at howes
      linarith
    have hgridPos : 0 < grid := tolerance_pos.trans hgrid
    have hlt := lt_of_mul_lt_mul_right hlt hgridPos.le
    exact Nat.lt_succ_iff.mp (by exact_mod_cast hlt)
  have hcovered : l.debt - l.config.timestep = (n - k : ℕ) * grid := by
    rw [hk, hn, Nat.cast_sub hle]
    ring
  refine ⟨n - k, hcovered, ?_⟩
  rw [paid_eq_max, hcovered]
  exact max_eq_left (mul_nonneg (Nat.cast_nonneg _) (tolerance_pos.trans hgrid).le)

theorem OnGrid.step (h : l.OnGrid grid total) (hgrid : Seconds.tolerance < grid)
    (howes : l.owes = true) : l.step.OnGrid grid total := by
  obtain ⟨n, hn, hpaid⟩ := h.covered hgrid howes
  have hspent := h.spent
  refine ⟨h.timestep, ⟨n, ?_⟩, ?_⟩
  · change l.paid = _
    rw [hpaid, hn]
  · change (l.steps + 1 : ℕ) * l.config.timestep + l.paid = total
    rw [hpaid]
    push_cast
    linarith

theorem OnGrid.catchUp (h : l.OnGrid grid total) (hgrid : Seconds.tolerance < grid) :
    l.catchUp.OnGrid grid total := by
  unfold Loop.catchUp
  split
  · next hbehind => exact h.step hgrid (Bool.and_eq_true_iff.mp hbehind).2
  · exact h.congr rfl rfl rfl

theorem OnGrid.advance (h : l.OnGrid grid total) (hgrid : Seconds.tolerance < grid)
    (hfixed : l.config.isVariable = false) (hmode : l.config.catchUp ≠ .fireAndForget)
    (haccepted : l.config.accepted time = time) (htime : ∃ n : ℕ, time = n * grid) :
    (l.advance time frame).OnGrid grid (total + time) := by
  obtain ⟨k, hk⟩ := htime
  obtain ⟨n, hn⟩ := h.debt
  have hspent := h.spent
  have hgiven : ({ l with debt := l.debt + time, parked := none, frame } : Loop ℚ).OnGrid grid
      (total + time) := by
    refine ⟨h.timestep, ⟨n + k, ?_⟩, ?_⟩
    · change l.debt + time = _
      rw [hn, hk]
      push_cast
      ring
    · change l.steps * l.config.timestep + (l.debt + time) = _
      linarith
  rw [advance_of_fixed hfixed hmode, haccepted]
  dsimp only
  split
  · next howes => exact hgiven.step hgrid howes
  · exact hgiven.congr rfl rfl rfl

/-! ### Counts of steps -/

/-- How many steps a balanced loop that is not behind has taken, up to early ones. -/
theorem Balanced.steps_mem (h : l.Balanced total) (htol : Seconds.tolerance < l.config.timestep)
    (hpaid : l.debt + Seconds.tolerance < l.config.timestep) :
    (l.steps : ℤ) ∈ Set.Icc ⌊(total + Seconds.tolerance) / l.config.timestep⌋
      ⌊total / (l.config.timestep - Seconds.tolerance)⌋ := by
  have hts := tolerance_pos.trans htol
  obtain ⟨hdebt, hle, hge⟩ := h
  constructor
  · refine Int.lt_add_one_iff.mp (Int.floor_lt.mpr ?_)
    push_cast
    rw [div_lt_iff₀ hts]
    linarith
  · refine Int.le_floor.mpr ?_
    push_cast
    rw [le_div_iff₀ (sub_pos.mpr htol)]
    linarith

theorem OnGrid.steps_eq (h : l.OnGrid grid total) (hts : 0 < l.config.timestep)
    (hdebt : 0 ≤ l.debt) (hpaid : l.debt < l.config.timestep) :
    (l.steps : ℤ) = ⌊total / l.config.timestep⌋ := by
  have hspent := h.spent
  refine (Int.floor_eq_iff.mpr ⟨?_, ?_⟩).symm
  · push_cast
    rw [le_div_iff₀ hts]
    linarith
  · push_cast
    rw [div_lt_iff₀ hts]
    linarith

end Loop

namespace LoopTable

open Loop

/-- Frames by their times, each an update and catching up to the end. -/
inductive Spends {τ : Type} [Seconds τ] [LT τ] [LE τ] [DecidableLT τ] [DecidableLE τ] [Add τ]
    [Sub τ] : LoopTable τ → List τ → LoopTable τ → Prop
  | nil (t : LoopTable τ) : Spends t [] t
  | cons {t u v : LoopTable τ} {time : τ} {times : List τ}
      (caught : CatchesUp (t.update time) u) (rest : Spends u times v) :
      Spends t (time :: times) v

variable {t u v : LoopTable ℚ} {id : LoopId} {l : Loop ℚ} {times cut : List ℚ} {total : ℚ}

theorem Spends.invariant {P : Loop ℚ → ℚ → Prop}
    (hadvance : ∀ l total time frame, time ∈ times → P l total →
      P (l.advance time frame) (total + time))
    (hcatchUp : ∀ l total, P l total → P l.catchUp total) (h : Spends t times u)
    (hl : t.get? id = some l) (hbehind : l.isBehind = false) (hP : P l total) :
    ∃ l', u.get? id = some l' ∧ l'.isBehind = false ∧ P l' (total + times.sum) := by
  induction h generalizing l total with
  | nil t => exact ⟨l, hl, hbehind, by simpa using hP⟩
  | @cons t u v time times caught rest ih =>
    have hgiven := hadvance l total time t.frame List.mem_cons_self hP
    have hupdated : (t.update time).get? id = some (l.advance time t.frame) := by
      rw [update_get?, hl, Option.map_some]
    obtain ⟨n, hn, hcaught⟩ := caught.get? hupdated
    have hkept : P (Loop.catchUp^[n] (l.advance time t.frame)) (total + time) := by
      clear hn hcaught
      induction n with
      | zero => exact hgiven
      | succ n ih =>
        rw [Function.iterate_succ_apply']
        exact hcatchUp _ _ ih
    have hrest := ih (fun l total time frame htime => hadvance l total time frame
      (List.mem_cons_of_mem _ htime)) hn hcaught hkept
    rwa [List.sum_cons, ← add_assoc]

section Registered

variable {t₀ : LoopTable ℚ} {config : LoopConfig ℚ} {grid : ℚ}
  (registered : t₀.register config = .ok (t, id)) (hmode : config.catchUp = .multipleSteps)
  (htol : Seconds.tolerance < config.timestep)
  (htimes : ∀ time ∈ times, 0 < time ∧ time ≤ config.cap)

include htol in
theorem ofConfig_not_behind : (Loop.ofConfig config).isBehind = false := by
  refine Bool.eq_false_iff.mpr fun hbehind => ?_
  obtain ⟨_, _, howes⟩ := isBehind_iff.mp hbehind
  simp only [Loop.ofConfig, Seconds.zero, zero_add] at howes
  exact absurd howes (not_le.mpr htol)

/-- A loop with such a timestep that is not behind owes nothing. -/
theorem paid_of_not_behind (hmode : l.config.catchUp = .multipleSteps)
    (htol : Seconds.tolerance < l.config.timestep) (hbehind : l.isBehind = false) :
    l.debt + Seconds.tolerance < l.config.timestep := by
  by_contra hle
  have hfixed := not_variable (tolerance_pos.trans htol)
  rw [isBehind_iff.mpr ⟨hfixed, hmode, not_lt.mp hle⟩] at hbehind
  cases hbehind

include registered hmode htol htimes

/-- However a time is cut into frames, the steps in it are as many as fit, up to early ones. -/
theorem Spends.steps_mem (h : Spends t times u) :
    (u.stepsOf id : ℤ) ∈ Set.Icc ⌊(times.sum + Seconds.tolerance) / config.timestep⌋
      ⌊times.sum / (config.timestep - Seconds.tolerance)⌋ := by
  have hcheck := (register_eq_ok registered).1
  have hfixed := not_variable (tolerance_pos.trans htol)
  obtain ⟨l, hl, hbehind, rfl, hbalanced⟩ := h.invariant
    (P := fun l total => l.config = config ∧ l.Balanced total)
    (fun l total time frame htime ⟨hconfig, hb⟩ => by
      obtain ⟨hpos, hcap⟩ := htimes time htime
      subst hconfig
      have hgiven : (l.advance time frame).Balanced (total + l.config.accepted time) :=
        hb.advance (cap_pos hcheck) hfixed (by simp [hmode])
      rw [accepted_of_le hpos hcap] at hgiven
      exact ⟨l.advance_config time frame, hgiven⟩)
    (fun l total ⟨hconfig, hb⟩ => ⟨l.catchUp_config.trans hconfig, hb.catchUp⟩)
    (register_get? registered) (ofConfig_not_behind htol) ⟨rfl, .ofConfig config⟩
  rw [zero_add] at hbalanced
  rw [stepsOf, hl]
  exact hbalanced.steps_mem htol (paid_of_not_behind hmode htol hbehind)

/-- On a coarse grid the steps are exactly as many as fit. -/
theorem Spends.steps_on_grid (h : Spends t times u) (hgrid : Seconds.tolerance < grid)
    (hts : ∃ n : ℕ, config.timestep = n * grid)
    (hmultiples : ∀ time ∈ times, ∃ n : ℕ, time = n * grid) :
    (u.stepsOf id : ℤ) = ⌊times.sum / config.timestep⌋ := by
  have hfixed := not_variable (tolerance_pos.trans htol)
  obtain ⟨l, hl, hbehind, rfl, hon⟩ := h.invariant
    (P := fun l total => l.config = config ∧ l.OnGrid grid total)
    (fun l total time frame htime ⟨hconfig, hon⟩ => by
      obtain ⟨hpos, hcap⟩ := htimes time htime
      subst hconfig
      exact ⟨l.advance_config time frame, hon.advance hgrid hfixed (by simp [hmode])
        (accepted_of_le hpos hcap) (hmultiples time htime)⟩)
    (fun l total ⟨hconfig, hon⟩ => ⟨l.catchUp_config.trans hconfig, hon.catchUp hgrid⟩)
    (register_get? registered) (ofConfig_not_behind htol)
    ⟨rfl, .ofConfig hts⟩
  rw [zero_add] at hon
  rw [stepsOf, hl]
  have hpaid := paid_of_not_behind hmode htol hbehind
  have hpos := tolerance_pos
  obtain ⟨n, hn⟩ := hon.debt
  have hdebt : 0 ≤ l.debt := by
    rw [hn]
    exact mul_nonneg (Nat.cast_nonneg n) (hpos.trans hgrid).le
  exact hon.steps_eq (hpos.trans htol) hdebt (by linarith)

end Registered

/-- The same time, cut into frames in two ways and caught up with after each of them, leaves a loop
with two counts of steps that both lie between the whole timesteps in it and the whole timesteps
less the tolerance in it. On a grid coarser than the tolerance both are the whole timesteps. -/
theorem steps_of_cuts {t₀ : LoopTable ℚ} {config : LoopConfig ℚ}
    (registered : t₀.register config = .ok (t, id)) (hmode : config.catchUp = .multipleSteps)
    (htol : 1 / 1000000000 < config.timestep)
    (htimes : ∀ time ∈ times, 0 < time ∧ time ≤ config.cap)
    (hcut : ∀ time ∈ cut, 0 < time ∧ time ≤ config.cap) (hsum : cut.sum = times.sum)
    (hu : Spends t times u) (hv : Spends t cut v) :
    (u.stepsOf id : ℤ) ∈ Set.Icc ⌊(times.sum + 1 / 1000000000) / config.timestep⌋
      ⌊times.sum / (config.timestep - 1 / 1000000000)⌋ ∧
    (v.stepsOf id : ℤ) ∈ Set.Icc ⌊(times.sum + 1 / 1000000000) / config.timestep⌋
      ⌊times.sum / (config.timestep - 1 / 1000000000)⌋ ∧
    ∀ grid : ℚ, 1 / 1000000000 < grid → (∃ n : ℕ, config.timestep = n * grid) →
      (∀ time ∈ times ++ cut, ∃ n : ℕ, time = n * grid) →
      (u.stepsOf id : ℤ) = ⌊times.sum / config.timestep⌋ ∧ v.stepsOf id = u.stepsOf id := by
  refine ⟨hu.steps_mem registered hmode htol htimes,
    hsum ▸ hv.steps_mem registered hmode htol hcut, fun grid hgrid hts hmultiples => ?_⟩
  have hsteps := hu.steps_on_grid registered hmode htol htimes hgrid hts fun time htime =>
    hmultiples time (List.mem_append_left _ htime)
  have hsteps' := hv.steps_on_grid registered hmode htol hcut hgrid hts fun time htime =>
    hmultiples time (List.mem_append_right _ htime)
  refine ⟨hsteps, ?_⟩
  rw [hsum, ← hsteps] at hsteps'
  exact_mod_cast hsteps'

def half : LoopConfig ℚ := { name := "physics", timestep := 1 / 2, cap := 4 }

theorem half_registered : ({} : LoopTable ℚ).register half =
    .ok ({ loops := [Loop.ofConfig half] }, ⟨0⟩) := register_of_free rfl (by decide +kernel)

theorem Spends.cons_of_drain {τ : Type} [Seconds τ] [LT τ] [LE τ] [DecidableLT τ] [DecidableLE τ]
    [Add τ] [Sub τ] {t v : LoopTable τ} {time : τ} {times : List τ} (limit : ℕ)
    (hended : ((t.update time).drain limit).2.isBehind = false)
    (rest : Spends ((t.update time).drain limit).2 times v) : Spends t (time :: times) v :=
  .cons ⟨limit, rfl, by rw [catchUp?, hended]; rfl⟩ rest

/-- A second and a half in quarters and in one frame, on a grid of quarters. -/
theorem half_cut : ∃ u v, Spends { loops := [Loop.ofConfig half] } [1 / 4, 3 / 4, 1 / 2] u ∧
    Spends { loops := [Loop.ofConfig half] } [3 / 2] v ∧
    v.stepsOf ⟨0⟩ = u.stepsOf ⟨0⟩ ∧ u.stepsOf ⟨0⟩ = 3 := by
  obtain ⟨u, hu, hsteps⟩ : ∃ u, Spends { loops := [Loop.ofConfig half] } [1 / 4, 3 / 4, 1 / 2] u ∧
      u.stepsOf ⟨0⟩ = 3 :=
    ⟨_, .cons_of_drain 0 (by decide +kernel) (.cons_of_drain 1 (by decide +kernel)
      (.cons_of_drain 0 (by decide +kernel) (.nil _))), by decide +kernel⟩
  obtain ⟨v, hv⟩ : ∃ v, Spends { loops := [Loop.ofConfig half] } [3 / 2] v :=
    ⟨_, .cons_of_drain 2 (by decide +kernel) (.nil _)⟩
  obtain ⟨_, _, hgrid⟩ := steps_of_cuts half_registered rfl (by decide +kernel)
    (by decide +kernel) (by decide +kernel) (by decide +kernel) hu hv
  have hsame := hgrid (1 / 4) (by decide +kernel) ⟨2, by decide +kernel⟩ (by
    simp only [List.mem_append, List.mem_cons, List.not_mem_nil, or_false]
    rintro time ((rfl | rfl | rfl) | rfl)
    · exact ⟨1, by norm_num⟩
    · exact ⟨3, by norm_num⟩
    · exact ⟨2, by norm_num⟩
    · exact ⟨6, by norm_num⟩)
  exact ⟨u, v, hu, hv, hsame.2, hsteps⟩

/-- A frame that the tolerance makes a step of the loop. -/
def short : ℚ := 1 / 2 - 1 / 2147483648

/-- Three such frames are three steps, and their time in one frame is two. -/
theorem half_short : ∃ t u v, ({} : LoopTable ℚ).register half = .ok (t, ⟨0⟩) ∧
    (∀ time ∈ [3 * short, short, short, short], 0 < time ∧ time ≤ half.cap) ∧
    [short, short, short].sum = [3 * short].sum ∧
    Spends t [3 * short] u ∧ Spends t [short, short, short] v ∧
    u.stepsOf ⟨0⟩ = 2 ∧ v.stepsOf ⟨0⟩ = 3 :=
  ⟨_, _, _, half_registered, by decide +kernel, by decide +kernel,
    .cons_of_drain 1 (by decide +kernel) (.nil _),
    .cons_of_drain 0 (by decide +kernel) (.cons_of_drain 0 (by decide +kernel)
      (.cons_of_drain 0 (by decide +kernel) (.nil _))),
    by decide +kernel, by decide +kernel⟩

end LoopTable

end FrameGraph
