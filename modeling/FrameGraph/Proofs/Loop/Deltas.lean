import FrameGraph.Proofs.Loop.Drain

/-! The deltas that loops publish, in exact arithmetic. No history takes the delta of a loop out of
the range from zero to the loop's bound, or to its timestep where that is longer. A loop that fires
and forgets gathers the time it accepts as debt until that makes up a timestep; then it publishes
all of it up to this bound and begins again at zero, so that no more is lost than the shorter of
bound and timestep. -/

namespace FrameGraph

theorem Seconds.smaller_eq_min (a b : ℚ) : smaller a b = min a b := by
  rcases le_or_gt a b with h | h
  · rw [smaller, if_neg (not_lt.mpr h), min_eq_left h]
  · rw [smaller, if_pos h, min_eq_right h.le]

theorem Seconds.larger_eq_max (a b : ℚ) : larger a b = max a b := by
  rcases lt_or_ge a b with h | h
  · rw [larger, if_pos h, max_eq_right h.le]
  · rw [larger, if_neg (not_lt.mpr h), max_eq_left h]

namespace LoopConfig

variable {config : LoopConfig ℚ}

/-- The longest step of a loop: its bound, or its timestep where that is longer. -/
def reach (config : LoopConfig ℚ) : ℚ := max config.cap config.timestep

theorem accepted_le (config : LoopConfig ℚ) (frameTime : ℚ) :
    config.accepted frameTime ≤ config.cap := by
  rw [accepted, Seconds.smaller_eq_min]
  exact min_le_right _ _

theorem timestep_nonneg (h : config.check = .ok ()) : 0 ≤ config.timestep := by
  unfold check at h
  split at h
  · cases h
  · next hts =>
    have hts : ¬(!decide ((0 : ℚ) ≤ config.timestep)) = true := hts
    simpa using hts

theorem timestep_pos (h : config.check = .ok ()) (hfixed : config.isVariable = false) :
    0 < config.timestep := by
  have hzero : ¬(config.timestep ≤ 0 ∧ 0 ≤ config.timestep) := by
    have : (decide (config.timestep ≤ (0 : ℚ)) && decide ((0 : ℚ) ≤ config.timestep)) = false :=
      hfixed
    simpa using this
  exact not_le.mp fun hle => hzero ⟨hle, timestep_nonneg h⟩

end LoopConfig

namespace Loop

variable {l m : Loop ℚ} {frameTime : ℚ} {frame : ℕ}

theorem collapse_delta (l : Loop ℚ) : l.collapse.delta = min l.debt l.config.reach := by
  rw [collapse, Seconds.smaller_eq_min, Seconds.larger_eq_max, LoopConfig.reach]

/-- The loop after a frame has brought its time, before any step is taken. -/
def charged (l : Loop ℚ) (frameTime : ℚ) (frame : ℕ) : Loop ℚ :=
  { l with debt := l.debt + l.config.accepted frameTime, parked := none, frame }

theorem advance_eq_charged (hfixed : l.config.isVariable = false) :
    l.advance frameTime frame =
      if (l.charged frameTime frame).owes then (l.charged frameTime frame).trigger
      else { l.charged frameTime frame with triggered := false } := by
  simp only [advance, hfixed, Bool.false_eq_true, if_false]
  rfl

/-! ### The range of deltas -/

/-- The delta is in its range, and so is what the next one is made of. -/
structure Bounded (l : Loop ℚ) : Prop extends l.Solvent where
  timestep_nonneg : 0 ≤ l.config.timestep
  delta_nonneg : 0 ≤ l.delta
  delta_le : l.delta ≤ l.config.reach

theorem Bounded.ofConfig {config : LoopConfig ℚ} (h : config.check = .ok ()) :
    (Loop.ofConfig config).Bounded where
  debt_nonneg := le_refl (0 : ℚ)
  cap_pos := Loop.cap_pos h
  timestep_nonneg := LoopConfig.timestep_nonneg h
  delta_nonneg := le_refl (0 : ℚ)
  delta_le := le_max_of_le_left (Loop.cap_pos h).le

theorem Bounded.congr (h : l.Bounded) (hconfig : m.config = l.config) (hdelta : m.delta = l.delta)
    (hdebt : 0 ≤ m.debt) : m.Bounded where
  debt_nonneg := hdebt
  cap_pos := hconfig ▸ h.cap_pos
  timestep_nonneg := hconfig ▸ h.timestep_nonneg
  delta_nonneg := hdelta ▸ h.delta_nonneg
  delta_le := hdelta ▸ hconfig ▸ h.delta_le

theorem Bounded.step (h : l.Bounded) : l.step.Bounded where
  toSolvent := h.toSolvent.step
  timestep_nonneg := h.timestep_nonneg
  delta_nonneg := h.timestep_nonneg
  delta_le := le_max_right _ _

theorem Bounded.collapse (h : l.Bounded) : l.collapse.Bounded where
  debt_nonneg := le_refl (0 : ℚ)
  cap_pos := h.cap_pos
  timestep_nonneg := h.timestep_nonneg
  delta_nonneg := by
    rw [collapse_delta]
    exact le_min h.debt_nonneg (le_max_of_le_left h.cap_pos.le)
  delta_le := by
    rw [collapse_delta]
    exact min_le_right _ _

theorem Bounded.trigger (h : l.Bounded) : l.trigger.Bounded := by
  unfold Loop.trigger
  split
  · exact h.collapse
  · exact h.step

theorem Bounded.advance (h : l.Bounded) (frameTime : ℚ) (frame : ℕ) :
    (l.advance frameTime frame).Bounded := by
  have haccepted := accepted_nonneg h.cap_pos frameTime
  cases hvariable : l.config.isVariable with
  | true =>
    rw [Loop.advance, if_pos hvariable]
    exact ⟨⟨h.debt_nonneg, h.cap_pos⟩, h.timestep_nonneg, haccepted,
      le_max_of_le_left (l.config.accepted_le frameTime)⟩
  | false =>
    have hcharged : (l.charged frameTime frame).Bounded :=
      h.congr rfl rfl (add_nonneg h.debt_nonneg haccepted)
    rw [advance_eq_charged hvariable]
    split
    · exact hcharged.trigger
    · exact hcharged.congr rfl rfl hcharged.debt_nonneg

theorem Bounded.catchUp (h : l.Bounded) : l.catchUp.Bounded := by
  unfold Loop.catchUp
  split
  · exact h.step
  · exact h.congr rfl rfl h.debt_nonneg

theorem Bounded.settle (h : l.Bounded) : l.settle.Bounded := by
  unfold Loop.settle
  split
  · exact h
  · exact h.congr rfl rfl h.debt_nonneg

/-! ### Firing and forgetting -/

/-- A fixed loop that drops its debt with each step. -/
structure Fires (l : Loop ℚ) : Prop where
  fixed : l.config.isVariable = false
  mode : l.config.catchUp = .fireAndForget
  cap_pos : 0 < l.config.cap
  timestep_pos : 0 < l.config.timestep
  debt_lt : l.debt < l.config.timestep

/-- What a loop that fires and forgets makes of a frame that leaves it with so much time since it
last triggered. -/
structure Accounts (l m : Loop ℚ) (time : ℚ) : Prop where
  triggered_iff : m.triggered = true ↔ l.config.timestep ≤ time + 1 / 1000000000
  /-- It publishes the time up to its reach, takes one step and keeps no debt. -/
  fired : m.triggered = true →
    m.delta = min time l.config.reach ∧ m.steps = l.steps + 1 ∧ m.debt = 0 ∧
      m.delta ≤ time ∧ time - m.delta < min l.config.cap l.config.timestep
  /-- It keeps the time as debt. -/
  waited : m.triggered = false → m.delta = l.delta ∧ m.steps = l.steps ∧ m.debt = time

/-- Less than bound and timestep together exceeds the longer of them by less than the shorter. -/
theorem lost_lt {config : LoopConfig ℚ} {time : ℚ} (hcap : 0 < config.cap)
    (hts : 0 < config.timestep) (htime : time < config.cap + config.timestep) :
    time - min time config.reach < min config.cap config.timestep := by
  have hsum : config.reach + min config.cap config.timestep = config.cap + config.timestep :=
    max_add_min _ _
  rcases le_total time config.reach with hle | hlt
  · rw [min_eq_left hle, sub_self]
    exact lt_min hcap hts
  · rw [min_eq_right hlt]
    linarith

theorem Fires.accounts (h : l.Fires) (frameTime : ℚ) (frame : ℕ) :
    Accounts l (l.advance frameTime frame) (l.debt + l.config.accepted frameTime) := by
  have htime : l.debt + l.config.accepted frameTime < l.config.cap + l.config.timestep := by
    linarith [h.debt_lt, l.config.accepted_le frameTime]
  have howes : (l.charged frameTime frame).owes = true ↔
      l.config.timestep ≤ l.debt + l.config.accepted frameTime + 1 / 1000000000 := owes_iff
  rw [advance_eq_charged h.fixed]
  split
  · next hfires =>
    have htrigger : (l.charged frameTime frame).trigger = (l.charged frameTime frame).collapse :=
      if_pos h.mode
    have hdelta : (l.charged frameTime frame).collapse.delta =
        min (l.debt + l.config.accepted frameTime) l.config.reach := collapse_delta _
    rw [htrigger]
    constructor
    case triggered_iff => exact ⟨fun _ => howes.mp hfires, fun _ => rfl⟩
    case fired =>
      intro _
      rw [hdelta]
      exact ⟨rfl, rfl, rfl, min_le_left _ _, lost_lt h.cap_pos h.timestep_pos htime⟩
    case waited =>
      intro hnot
      cases hnot
  · next hwaits =>
    constructor
    case triggered_iff =>
      refine ⟨fun hnot => ?_, fun hle => absurd (howes.mpr hle) hwaits⟩
      cases hnot
    case fired =>
      intro hnot
      cases hnot
    case waited => exact fun _ => ⟨rfl, rfl, rfl⟩

/-- A frame leaves less debt than a timestep. -/
theorem Fires.advance (h : l.Fires) (frameTime : ℚ) (frame : ℕ) :
    (l.advance frameTime frame).Fires := by
  have haccounts := h.accounts frameTime frame
  have hconfig := l.advance_config frameTime frame
  refine ⟨hconfig ▸ h.fixed, hconfig ▸ h.mode, hconfig ▸ h.cap_pos, hconfig ▸ h.timestep_pos, ?_⟩
  rw [hconfig]
  cases htriggered : (l.advance frameTime frame).triggered with
  | true =>
    obtain ⟨_, _, hdebt, _⟩ := haccounts.fired htriggered
    exact hdebt ▸ h.timestep_pos
  | false =>
    obtain ⟨_, _, hdebt⟩ := haccounts.waited htriggered
    have hnot : ¬l.config.timestep ≤ l.debt + l.config.accepted frameTime + 1 / 1000000000 :=
      fun hle => Bool.eq_false_iff.mp htriggered (haccounts.triggered_iff.mpr hle)
    linarith

theorem Fires.congr (h : l.Fires) (hconfig : m.config = l.config) (hdebt : m.debt = l.debt) :
    m.Fires :=
  ⟨hconfig ▸ h.fixed, hconfig ▸ h.mode, hconfig ▸ h.cap_pos, hconfig ▸ h.timestep_pos,
    hdebt ▸ hconfig ▸ h.debt_lt⟩

end Loop

namespace LoopTable

open Loop

variable {t : LoopTable ℚ} {id : LoopId} {l : Loop ℚ}

theorem bounded_of_mem_run (ops : List (Op ℚ)) : ∀ l ∈ (run {} ops).loops, l.Bounded := by
  apply forall_mem_run
  · exact fun config hcheck => .ofConfig hcheck
  · intro t id op l h
    cases op with
    | register config | setFrame frame => exact h
    | update frameTime => exact h.advance frameTime t.frame
    | catchUp =>
      simp only [Op.onLoop]
      split
      · exact h.catchUp
      · exact h
    | settle => exact h.settle
    | record other millis =>
      simp only [Op.onLoop]
      split
      · exact h.congr rfl rfl h.debt_nonneg
      · exact h
  · exact fun l hl => absurd hl List.not_mem_nil

/-- A call that brings no time leaves a loop that fires and forgets on its step. -/
theorem onLoop_of_idle (t : LoopTable ℚ) (id : LoopId) (h : l.Fires) {op : Op ℚ}
    (hop : op.frameTime? = none) :
    (op.onLoop t id l).delta = l.delta ∧ (op.onLoop t id l).steps = l.steps ∧
      (op.onLoop t id l).debt = l.debt := by
  cases op with
  | register config | setFrame frame => exact ⟨rfl, rfl, rfl⟩
  | update frameTime => cases hop
  | catchUp =>
    have hbehind : l.isBehind = false := by simp [Loop.isBehind, h.mode]
    simp only [Op.onLoop]
    split
    · rw [Loop.catchUp, if_neg (Bool.eq_false_iff.mp hbehind)]
      exact ⟨rfl, rfl, rfl⟩
    · exact ⟨rfl, rfl, rfl⟩
  | settle =>
    simp only [Op.onLoop, Loop.settle]
    split <;> exact ⟨rfl, rfl, rfl⟩
  | record other millis =>
    simp only [Op.onLoop]
    split <;> exact ⟨rfl, rfl, rfl⟩

def triggersOn (t : LoopTable ℚ) (id : LoopId) (op : Op ℚ) : Bool :=
  op.frameTime?.isSome && (t.apply op).isTriggered id

/-- Of some calls, those since the last that triggered the loop, or all where none did, after others
that did not. -/
def sinceTrigger (t : LoopTable ℚ) (id : LoopId) (earlier : List (Op ℚ)) :
    List (Op ℚ) → List (Op ℚ)
  | [] => earlier
  | op :: ops =>
    (t.apply op).sinceTrigger id (if t.triggersOn id op then [] else earlier ++ [op]) ops

theorem acceptedTime_concat (config : LoopConfig ℚ) (ops : List (Op ℚ)) (op : Op ℚ) :
    acceptedTime config (ops ++ [op]) =
      acceptedTime config ops + (op.frameTime?.map config.accepted).getD 0 := by
  cases h : op.frameTime? <;> simp [acceptedTime, h]

/-- The debt of a loop that fires and forgets is the time that it accepted over some calls. -/
structure Gathers (l : Loop ℚ) (config : LoopConfig ℚ) (ops : List (Op ℚ)) : Prop
    extends l.Fires where
  config_eq : l.config = config
  debt_eq : l.debt = acceptedTime config ops

theorem Gathers.apply {config : LoopConfig ℚ} {earlier : List (Op ℚ)} (h : Gathers l config earlier)
    (hget : t.get? id = some l) (op : Op ℚ) :
    Gathers (op.onLoop t id l) config (if t.triggersOn id op then [] else earlier ++ [op]) := by
  obtain ⟨hfires, rfl, hdebt⟩ := h
  have hconfig := onLoop_config t id l op
  have hafter : (t.apply op).isTriggered id = (op.onLoop t id l).triggered := by
    simp [isTriggered, apply_get? hget op]
  cases hop : op.frameTime? with
  | none =>
    obtain ⟨_, _, hsame⟩ := onLoop_of_idle t id hfires hop
    refine ⟨hfires.congr hconfig hsame, hconfig, ?_⟩
    simp [triggersOn, hop, acceptedTime_concat, hsame, hdebt]
  | some frameTime =>
    obtain rfl : op = .update frameTime := by
      cases op <;> simp_all [Op.frameTime?]
    have haccounts := hfires.accounts frameTime t.frame
    refine ⟨hfires.advance frameTime t.frame, hconfig, ?_⟩
    rw [triggersOn, hop, Option.isSome_some, Bool.true_and, hafter]
    split
    · next hfired =>
      obtain ⟨_, _, hnothing, _⟩ := haccounts.fired hfired
      exact hnothing
    · next hwaited =>
      obtain ⟨_, _, hall⟩ := haccounts.waited (Bool.eq_false_iff.mpr hwaited)
      rw [acceptedTime_concat, ← hdebt]
      exact hall

theorem Gathers.run {config : LoopConfig ℚ} {earlier : List (Op ℚ)} (h : Gathers l config earlier)
    (hget : t.get? id = some l) (ops : List (Op ℚ)) :
    ∃ m, (t.run ops).get? id = some m ∧ Gathers m config (t.sinceTrigger id earlier ops) := by
  induction ops generalizing t l earlier with
  | nil => exact ⟨l, hget, h⟩
  | cons op ops ih => exact ih (h.apply hget op) (apply_get? hget op)

/-- The delta of every loop lies between zero and its bound, or its timestep where that is longer.
The debt of a fixed loop that fires and forgets is the time it accepted since it last triggered,
less than a timestep. A frame that makes up a timestep, up to the tolerance, triggers it: it
publishes that time up to the same limit, takes one step, keeps no debt and loses less than the
shorter of bound and timestep. No other call changes its delta, its steps or its debt. -/
theorem deltas_account :
    (∀ (ops : List (Op ℚ)), ∀ l ∈ (run {} ops).loops,
      0 ≤ l.delta ∧ l.delta ≤ max l.config.cap l.config.timestep) ∧
    ∀ (before after : List (Op ℚ)) (config : LoopConfig ℚ) (t : LoopTable ℚ) (id : LoopId),
      (run {} before).register config = .ok (t, id) → config.isVariable = false →
      config.catchUp = .fireAndForget →
      ∃ l, (t.run after).get? id = some l ∧ l.config = config ∧
        l.debt = acceptedTime config (t.sinceTrigger id [] after) ∧ l.debt < config.timestep ∧
        (∀ frameTime, ∃ m, ((t.run after).apply (.update frameTime)).get? id = some m ∧
          Accounts l m (acceptedTime config (t.sinceTrigger id [] after ++ [.update frameTime]))) ∧
        ∀ op : Op ℚ, op.frameTime? = none → ∃ m, ((t.run after).apply op).get? id = some m ∧
          m.delta = l.delta ∧ m.steps = l.steps ∧ m.debt = l.debt := by
  refine ⟨fun ops l hl => ?_, fun before after config t id registered hfixed hmode => ?_⟩
  · have hbounded := bounded_of_mem_run ops l hl
    exact ⟨hbounded.delta_nonneg, hbounded.delta_le⟩
  · obtain ⟨hcheck, _⟩ := register_eq_ok registered
    have hts := LoopConfig.timestep_pos hcheck hfixed
    have hnew : Gathers (.ofConfig config) config [] :=
      ⟨⟨hfixed, hmode, cap_pos hcheck, hts, hts⟩, rfl, rfl⟩
    obtain ⟨l, hl, hgathers⟩ := hnew.run (register_get? registered) after
    obtain ⟨hfires, rfl, hdebt⟩ := hgathers
    refine ⟨l, hl, rfl, hdebt, hfires.debt_lt, fun frameTime => ?_, fun op hop => ?_⟩
    · refine ⟨_, apply_get? hl _, ?_⟩
      rw [acceptedTime_concat, ← hdebt]
      exact hfires.accounts frameTime (t.run after).frame
    · exact ⟨_, apply_get? hl op, onLoop_of_idle _ id hfires hop⟩

/-- A loop of ten steps a second that drops what it does not publish. -/
def flare : LoopConfig ℚ :=
  { name := "flare", timestep := 1 / 10, catchUp := .fireAndForget, cap := 1 / 4 }

/-- Two frames that do not make up a timestep, with a step for other loops between them. -/
def flareCalls : List (Op ℚ) := [.update (3 / 10), .update (2 / 25), .catchUp, .settle]

theorem flare_accounts : ∃ t l m, (run {} []).register flare = .ok (t, ⟨0⟩) ∧
    (t.run flareCalls).get? ⟨0⟩ = some l ∧ l.debt = 2 / 25 ∧
    ((t.run flareCalls).apply (.update 1)).get? ⟨0⟩ = some m ∧
    m.delta = 1 / 4 ∧ Accounts l m (33 / 100) := by
  have hcheck : flare.check = .ok () := by decide +kernel
  have hregister : (run {} []).register flare = .ok (⟨[.ofConfig flare], 0⟩, ⟨0⟩) :=
    register_of_free rfl hcheck
  obtain ⟨l, hl, _, hdebt, _, hframes, _⟩ := deltas_account.2 [] flareCalls flare _ _ hregister
    (by decide +kernel) rfl
  obtain ⟨m, hm, haccounts⟩ := hframes 1
  have hgathered : acceptedTime flare
      ((⟨[.ofConfig flare], 0⟩ : LoopTable ℚ).sinceTrigger ⟨0⟩ [] flareCalls) = 2 / 25 := by
    decide +kernel
  have htime : acceptedTime flare
      ((⟨[.ofConfig flare], 0⟩ : LoopTable ℚ).sinceTrigger ⟨0⟩ [] flareCalls ++ [.update 1]) =
        33 / 100 := by decide +kernel
  have hdelta : ((((⟨[.ofConfig flare], 0⟩ : LoopTable ℚ).run flareCalls).apply
      (.update 1)).get? ⟨0⟩).map Loop.delta = some (1 / 4) := by decide +kernel
  refine ⟨_, l, m, hregister, hl, hdebt.trans hgathered, hm, ?_, htime ▸ haccounts⟩
  rw [hm] at hdelta
  exact Option.some.inj hdelta

end LoopTable

end FrameGraph
