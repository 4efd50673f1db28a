import Mathlib.Data.Rat.Floor
import Mathlib.Tactic.Linarith
import FrameGraph.Proofs.Loop.History

/-! The balance of time of a fixed loop, in exact arithmetic. The time that a loop has
accepted since its registration is the time of the steps it took and the debt that it
still carries. A step may be taken early, by no more than the tolerance, and only that is
forgiven; so no history loses debt, however catching up is interrupted. -/

namespace FrameGraph

namespace Loop

variable {l m : Loop ℚ} {total : ℚ}

/-! ### Debt in exact arithmetic -/

theorem owes_iff : l.owes = true ↔ l.config.timestep ≤ l.debt + Seconds.tolerance :=
  decide_eq_true_iff

theorem tolerance_pos : (0 : ℚ) < Seconds.tolerance := by
  change (0 : ℚ) < 1 / 1000000000
  norm_num

theorem paid_eq_max : l.paid = max (l.debt - l.config.timestep) 0 := by
  change (if l.debt - l.config.timestep < 0 then (0 : ℚ) else l.debt - l.config.timestep) = _
  split
  · next h => exact (max_eq_right h.le).symm
  · next h => exact (max_eq_left (not_lt.mp h)).symm

/-- Payment forgives at most the tolerance. -/
theorem paid_le (h : l.owes = true) : l.paid ≤ l.debt - l.config.timestep + Seconds.tolerance := by
  have howes := owes_iff.mp h
  have htol := tolerance_pos
  rw [paid_eq_max]
  exact max_le (by linarith) (by linarith)

/-- A bound on frame times that passes the check is positive, so accepted times are not negative. -/
theorem cap_pos {config : LoopConfig ℚ} (h : config.check = .ok ()) : 0 < config.cap := by
  unfold LoopConfig.check at h
  split at h
  · cases h
  · split at h
    · cases h
    · next hcap =>
      have hcap : ¬(!decide ((0 : ℚ) < config.cap)) = true := hcap
      simpa using hcap

theorem accepted_nonneg {config : LoopConfig ℚ} (hcap : 0 < config.cap) (frameTime : ℚ) :
    0 ≤ config.accepted frameTime := by
  have hpositive : 0 < LoopConfig.positive frameTime := by
    change 0 < if 0 < frameTime then frameTime else (1 / 1000 : ℚ)
    split
    · assumption
    · norm_num
  change 0 ≤ if config.cap < LoopConfig.positive frameTime then config.cap
    else LoopConfig.positive frameTime
  split
  · exact hcap.le
  · exact hpositive.le

/-! ### The balance -/

/-- The steps of a loop and its debt make up the time it accepted, up to the tolerance of each step.
-/
structure Balanced (l : Loop ℚ) (total : ℚ) : Prop where
  debt_nonneg : 0 ≤ l.debt
  le_spent : total ≤ l.steps * l.config.timestep + l.debt
  spent_le : l.steps * l.config.timestep + l.debt ≤ total + l.steps * Seconds.tolerance

theorem Balanced.ofConfig (config : LoopConfig ℚ) : (Loop.ofConfig config).Balanced 0 := by
  constructor <;> simp [Loop.ofConfig, Seconds.zero]

theorem Balanced.congr (h : l.Balanced total) (hconfig : m.config = l.config)
    (hsteps : m.steps = l.steps) (hdebt : m.debt = l.debt) : m.Balanced total := by
  constructor
  · rw [hdebt]
    exact h.debt_nonneg
  · rw [hconfig, hsteps, hdebt]
    exact h.le_spent
  · rw [hconfig, hsteps, hdebt]
    exact h.spent_le

theorem Balanced.accept (h : l.Balanced total) {time : ℚ} (htime : 0 ≤ time) :
    ({ l with debt := l.debt + time } : Loop ℚ).Balanced (total + time) := by
  obtain ⟨hdebt, hle, hge⟩ := h
  constructor <;> dsimp only <;> linarith

/-- A step that is owed moves a timestep from the debt to the steps. -/
theorem Balanced.step (h : l.Balanced total) (howes : l.owes = true) : l.step.Balanced total := by
  have hpaid : l.debt - l.config.timestep ≤ l.paid := paid_eq_max ▸ le_max_left _ _
  have hforgiven := paid_le howes
  obtain ⟨_, hle, hge⟩ := h
  constructor
  · change 0 ≤ l.paid
    exact paid_eq_max ▸ le_max_right _ _
  · change total ≤ (l.steps + 1 : ℕ) * l.config.timestep + l.paid
    push_cast
    linarith
  · change (l.steps + 1 : ℕ) * l.config.timestep + l.paid ≤
      total + (l.steps + 1 : ℕ) * Seconds.tolerance
    push_cast
    linarith

variable {frameTime : ℚ} {frame : ℕ}

/-- A frame brings its accepted time into the balance. -/
theorem Balanced.advance (h : l.Balanced total) (hcap : 0 < l.config.cap)
    (hfixed : l.config.isVariable = false) (hmode : l.config.catchUp ≠ .fireAndForget) :
    (l.advance frameTime frame).Balanced (total + l.config.accepted frameTime) := by
  have haccept := h.accept (accepted_nonneg hcap frameTime)
  have hstamped : ({ l with
      debt := l.debt + l.config.accepted frameTime, parked := none, frame } : Loop ℚ).Balanced
      (total + l.config.accepted frameTime) := haccept.congr rfl rfl rfl
  unfold Loop.advance
  simp only [hfixed, Bool.false_eq_true, if_false]
  split
  · next howes =>
    rw [trigger, if_neg hmode]
    exact hstamped.step howes
  · exact hstamped.congr rfl rfl rfl

theorem Balanced.catchUp (h : l.Balanced total) : l.catchUp.Balanced total := by
  unfold Loop.catchUp
  split
  · next hbehind => exact h.step (Bool.and_eq_true_iff.mp hbehind).2
  · exact h.congr rfl rfl rfl

theorem Balanced.settle (h : l.Balanced total) : l.settle.Balanced total := by
  unfold Loop.settle
  split
  · exact h
  · exact h.congr rfl rfl rfl

/-- A balanced loop that owes nothing has taken the whole timesteps in the time it accepted. -/
theorem Balanced.floor_le (h : l.Balanced total) (hts : 0 < l.config.timestep)
    (hpaid : l.debt < l.config.timestep) : ⌊total / l.config.timestep⌋ ≤ (l.steps : ℤ) := by
  have hlt : total / l.config.timestep < (l.steps : ℚ) + 1 := by
    rw [div_lt_iff₀ hts]
    linarith [h.le_spent]
  exact Int.lt_add_one_iff.mp (Int.floor_lt.mpr (by exact_mod_cast hlt))

end Loop

namespace LoopTable

open Loop

def acceptedTime (config : LoopConfig ℚ) (ops : List (Op ℚ)) : ℚ :=
  ((ops.filterMap Op.frameTime?).map config.accepted).sum

theorem acceptedTime_cons (config : LoopConfig ℚ) (op : Op ℚ) (ops : List (Op ℚ)) :
    acceptedTime config (op :: ops) =
      (op.frameTime?.map config.accepted).getD 0 + acceptedTime config ops := by
  cases h : op.frameTime? <;> simp [acceptedTime, h]

variable {t : LoopTable ℚ} {id : LoopId} {l : Loop ℚ} {total : ℚ}

theorem onLoop_balanced (op : Op ℚ) (h : l.Balanced total) (hcap : 0 < l.config.cap)
    (hfixed : l.config.isVariable = false) (hmode : l.config.catchUp ≠ .fireAndForget) :
    (op.onLoop t id l).Balanced (total + (op.frameTime?.map l.config.accepted).getD 0) := by
  have hsame : l.Balanced (total + 0) := by rwa [add_zero]
  cases op with
  | register config | setFrame frame => exact hsame
  | update frameTime => exact h.advance hcap hfixed hmode
  | catchUp =>
    simp only [Op.onLoop]
    split
    · exact hsame.catchUp
    · exact hsame
  | settle => exact hsame.settle
  | record other millis =>
    simp only [Op.onLoop]
    split
    · exact hsame.congr rfl rfl rfl
    · exact hsame

theorem run_balanced (ops : List (Op ℚ)) (hget : t.get? id = some l) (h : l.Balanced total)
    (hcap : 0 < l.config.cap) (hfixed : l.config.isVariable = false)
    (hmode : l.config.catchUp ≠ .fireAndForget) :
    ∃ l', (t.run ops).get? id = some l' ∧ l'.config = l.config ∧
      l'.Balanced (total + acceptedTime l.config ops) := by
  induction ops generalizing t l total with
  | nil => exact ⟨l, hget, rfl, by simpa [acceptedTime] using h⟩
  | cons op ops ih =>
    have hconfig := onLoop_config t id l op
    obtain ⟨l', hl', hc, hb⟩ := ih (apply_get? hget op) (onLoop_balanced op h hcap hfixed hmode)
      (hconfig ▸ hcap) (hconfig ▸ hfixed) (hconfig ▸ hmode)
    rw [hconfig] at hc hb
    refine ⟨l', hl', hc, ?_⟩
    rw [acceptedTime_cons, ← add_assoc]
    exact hb

/-! ### Conservation -/

theorem isBehind_of_catchUp? (h : t.catchUp? = none) (hl : l ∈ t.loops) : l.isBehind = false := by
  have hnone : t.isBehind = false := by
    cases hb : t.isBehind with
    | false => rfl
    | true => simp [catchUp?, hb] at h
  exact Bool.eq_false_iff.mpr (List.any_eq_false.mp hnone l hl)

/-- Time is conserved. Whatever is done to a table after a fixed loop is registered, the steps of
the loop and its debt make up the time it accepted, each step having been taken early by the
tolerance at most. Once nothing is left to catch up with, a loop in the mode of several steps has
taken the whole timesteps in that time. -/
theorem time_conserved (before after : List (Op ℚ)) (config : LoopConfig ℚ) {t : LoopTable ℚ}
    {id : LoopId} (registered : (run {} before).register config = .ok (t, id))
    (hfixed : config.isVariable = false)
    (hmode : config.catchUp = .multipleSteps ∨ config.catchUp = .singleStep) :
    ∃ l, (t.run after).get? id = some l ∧ l.config = config ∧ 0 ≤ l.debt ∧
      acceptedTime config after ≤ l.steps * config.timestep + l.debt ∧
      l.steps * config.timestep + l.debt ≤
        acceptedTime config after + l.steps * (1 / 1000000000) ∧
      (config.catchUp = .multipleSteps → 1 / 1000000000 < config.timestep →
        (t.run after).catchUp? = none →
        l.debt + 1 / 1000000000 < config.timestep ∧
          ⌊acceptedTime config after / config.timestep⌋ ≤ (l.steps : ℤ) ∧
          l.steps * (config.timestep - 1 / 1000000000) ≤ acceptedTime config after) := by
  obtain ⟨hcheck, _⟩ := register_eq_ok registered
  have hnotFire : config.catchUp ≠ .fireAndForget := by
    rcases hmode with h | h <;> simp [h]
  obtain ⟨l, hl, hconfig, hb⟩ := run_balanced after (register_get? registered) (.ofConfig config)
    (cap_pos hcheck) hfixed hnotFire
  rw [zero_add] at hb
  obtain rfl : l.config = config := hconfig
  change l.Balanced (acceptedTime l.config after) at hb
  refine ⟨l, hl, rfl, hb.debt_nonneg, hb.le_spent, hb.spent_le, fun hmany hts hended => ?_⟩
  have hpaid : l.debt + Seconds.tolerance < l.config.timestep := by
    have hbehind := isBehind_of_catchUp? hended (List.mem_of_getElem? hl)
    have howes : l.owes = false := by
      simpa [Loop.isBehind, hfixed, hmany] using hbehind
    exact not_le.mp fun hle => Bool.eq_false_iff.mp howes (owes_iff.mpr hle)
  have htol := tolerance_pos
  refine ⟨hpaid, hb.floor_le (by linarith) (by linarith), ?_⟩
  have hspent := hb.spent_le
  have hdebt := hb.debt_nonneg
  change l.steps * (l.config.timestep - Seconds.tolerance) ≤ _
  linarith

def tenth : LoopConfig ℚ := { name := "physics", timestep := 1 / 10, cap := 1 / 4 }

/-- Two frames, the first cut to a quarter of a second and caught up with only once, before catching
up comes to its end. -/
def tenthCalls : List (Op ℚ) :=
  [.update (1 / 2), .catchUp, .settle, .update (1 / 5), .catchUp, .catchUp, .settle]

theorem tenth_conserved : ∃ t l, (run {} []).register tenth = .ok (t, ⟨0⟩) ∧
    (t.run tenthCalls).get? ⟨0⟩ = some l ∧ l.steps = 4 ∧ acceptedTime tenth tenthCalls = 9 / 20 ∧
    ⌊acceptedTime tenth tenthCalls / tenth.timestep⌋ ≤ (l.steps : ℤ) := by
  have hcheck : tenth.check = .ok () := by decide +kernel
  have hregister : (run {} []).register tenth = .ok (⟨[.ofConfig tenth], 0⟩, ⟨0⟩) :=
    register_of_free rfl hcheck
  obtain ⟨l, hl, _, _, _, _, hcaughtUp⟩ := time_conserved [] tenthCalls tenth hregister
    (by decide +kernel) (.inl rfl)
  have hended : ((⟨[.ofConfig tenth], 0⟩ : LoopTable ℚ).run tenthCalls).isBehind = false := by
    decide +kernel
  have hsteps : (((⟨[.ofConfig tenth], 0⟩ : LoopTable ℚ).run tenthCalls).get? ⟨0⟩).map
      Loop.steps = some 4 := by decide +kernel
  have htime : acceptedTime tenth tenthCalls = 9 / 20 := by decide +kernel
  refine ⟨_, l, hregister, hl, ?_, htime, (hcaughtUp rfl (by decide +kernel) ?_).2.1⟩
  · rw [hl] at hsteps
    exact Option.some.inj hsteps
  · rw [catchUp?, hended]
    rfl

end LoopTable

end FrameGraph
