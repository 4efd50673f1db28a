import Mathlib.Algebra.Order.BigOperators.Group.List
import FrameGraph.Proofs.Loop.Balance

/-! Catching up to the end, in exact arithmetic. Each step of catching up takes one from
the whole timesteps that a loop owes, as long as its timestep is longer than the
tolerance; so the loops are caught up after as many steps as the one furthest behind owes.
A loop whose timestep is within the tolerance owes a step even without any debt and is
never caught up. -/

namespace FrameGraph

namespace Loop

variable {l : Loop ℚ}

/-- How often the loop steps before it is no longer behind. -/
def owed (l : Loop ℚ) : ℕ :=
  if l.isBehind then ⌊(l.debt + Seconds.tolerance) / l.config.timestep⌋₊ else 0

/-- A loop that may step again within a frame has a timestep that the tolerance does not cover. -/
def IsCoarse (l : Loop ℚ) : Prop :=
  l.config.isVariable = false → l.config.catchUp = .multipleSteps →
    Seconds.tolerance < l.config.timestep

theorem isBehind_iff : l.isBehind = true ↔ l.config.isVariable = false ∧
    l.config.catchUp = .multipleSteps ∧ l.config.timestep ≤ l.debt + Seconds.tolerance := by
  simp [isBehind, owes_iff, and_assoc]

theorem IsCoarse.catchUp (h : l.IsCoarse) : l.catchUp.IsCoarse := by
  unfold IsCoarse
  rw [catchUp_config]
  exact h

theorem owed_of_not_behind (h : l.isBehind = false) : l.owed = 0 := by simp [owed, h]

theorem owed_pos (hcoarse : l.IsCoarse) (h : l.isBehind = true) : 0 < l.owed := by
  obtain ⟨hfixed, hmany, howes⟩ := isBehind_iff.mp h
  have hts := tolerance_pos.trans (hcoarse hfixed hmany)
  rw [owed, if_pos h, Nat.floor_pos, le_div_iff₀ hts]
  linarith

/-- A step of catching up is one that is no longer owed. -/
theorem owed_catchUp_le (hcoarse : l.IsCoarse) : l.catchUp.owed ≤ l.owed - 1 := by
  cases h : l.isBehind with
  | false =>
    have hidle : l.idle.isBehind = false := h
    simp [Loop.catchUp, h, owed_of_not_behind hidle]
  | true =>
    have hpos := owed_pos hcoarse h
    obtain ⟨hfixed, hmany, howes⟩ := isBehind_iff.mp h
    have htol := hcoarse hfixed hmany
    have hts := tolerance_pos.trans htol
    have hstep : l.catchUp = l.step := by simp [Loop.catchUp, h]
    rw [hstep]
    rcases le_total l.config.timestep l.debt with hle | hlt
    · have hpaid : l.step.debt = l.debt - l.config.timestep := by
        change l.paid = _
        rw [paid_eq_max, max_eq_left (by linarith)]
      have hquotient : (l.step.debt + Seconds.tolerance) / l.config.timestep =
          (l.debt + Seconds.tolerance) / l.config.timestep - 1 := by
        rw [hpaid, eq_sub_iff_add_eq, div_add_one hts.ne']
        ring
      have hfloor : ⌊(l.step.debt + Seconds.tolerance) / l.config.timestep⌋₊ = l.owed - 1 := by
        rw [owed, if_pos h, hquotient, Nat.floor_sub_one]
      rw [← hfloor, owed]
      split
      · exact le_refl _
      · exact Nat.zero_le _
    · -- the debt was within the tolerance of a step, and nothing is left of it
      have hpaid : l.step.debt = 0 := by
        change l.paid = _
        rw [paid_eq_max, max_eq_right (by linarith)]
      have hnot : l.step.isBehind = false := by
        refine Bool.eq_false_iff.mpr fun hbehind => ?_
        obtain ⟨_, _, hle⟩ := isBehind_iff.mp hbehind
        rw [hpaid, zero_add] at hle
        exact absurd hle (not_le.mpr htol)
      rw [owed_of_not_behind hnot]
      exact Nat.zero_le _

/-- Debt and the bound on frame times are not negative. -/
structure Solvent (l : Loop ℚ) : Prop where
  debt_nonneg : 0 ≤ l.debt
  cap_pos : 0 < l.config.cap

theorem Solvent.step (h : l.Solvent) : l.step.Solvent :=
  ⟨show 0 ≤ l.paid from paid_eq_max ▸ le_max_right _ _, h.cap_pos⟩

theorem Solvent.catchUp (h : l.Solvent) : l.catchUp.Solvent := by
  unfold Loop.catchUp
  split
  · exact h.step
  · exact ⟨h.debt_nonneg, h.cap_pos⟩

theorem Solvent.advance (h : l.Solvent) (frameTime : ℚ) (frame : ℕ) :
    (l.advance frameTime frame).Solvent := by
  have haccept : 0 ≤ l.debt + l.config.accepted frameTime :=
    add_nonneg h.debt_nonneg (accepted_nonneg h.cap_pos frameTime)
  refine ⟨?_, by rw [advance_config]; exact h.cap_pos⟩
  unfold Loop.advance
  dsimp only
  split
  · exact h.debt_nonneg
  · split
    · unfold trigger
      split
      · exact le_refl (0 : ℚ)
      · exact show 0 ≤ paid _ from paid_eq_max ▸ le_max_right _ _
    · exact haccept

theorem isBehind_of_not_coarse (h : l.Solvent) (hfine : ¬l.IsCoarse) : l.isBehind = true := by
  simp only [IsCoarse, Classical.not_imp, not_lt] at hfine
  obtain ⟨hfixed, hmany, hle⟩ := hfine
  exact isBehind_iff.mpr ⟨hfixed, hmany, by linarith [h.debt_nonneg]⟩

end Loop

namespace LoopTable

open Loop

variable {t : LoopTable ℚ}

/-- After as many steps as any loop owes, no loop is behind. -/
theorem drain_ends {n : ℕ} (h : ∀ l ∈ t.loops, l.IsCoarse ∧ l.owed ≤ n) :
    (t.drain n).2.catchUp? = none := by
  induction n generalizing t with
  | zero =>
    have hbehind : t.isBehind = false := by
      refine List.any_eq_false.mpr fun l hl hb => ?_
      have hpos := owed_pos (h l hl).1 hb
      have hle := (h l hl).2
      omega
    simp [drain, catchUp?, hbehind]
  | succ n ih =>
    cases hc : t.catchUp? with
    | none => rwa [drain_of_none hc]
    | some next =>
      rw [drain_of_some hc]
      obtain ⟨_, rfl⟩ := catchUp?_eq_some hc
      apply ih
      intro m hm
      obtain ⟨l, hl, rfl⟩ := List.mem_map.mp hm
      have hle := owed_catchUp_le (h l hl).1
      have hn := (h l hl).2
      exact ⟨(h l hl).1.catchUp, by omega⟩

/-- A loop that no step catches up keeps the table behind. -/
theorem drain_behind (n : ℕ) (h : ∃ l ∈ t.loops, l.Solvent ∧ ¬l.IsCoarse) :
    (t.drain n).2.catchUp? ≠ none := by
  induction n generalizing t with
  | zero =>
    obtain ⟨l, hl, hsolvent, hfine⟩ := h
    have hbehind : t.isBehind = true :=
      List.any_eq_true.mpr ⟨l, hl, isBehind_of_not_coarse hsolvent hfine⟩
    simp [drain, catchUp?, hbehind]
  | succ n ih =>
    cases hc : t.catchUp? with
    | none =>
      obtain ⟨l, hl, hsolvent, hfine⟩ := h
      have hnot := isBehind_of_catchUp? hc hl
      exact absurd (isBehind_of_not_coarse hsolvent hfine) (Bool.eq_false_iff.mp hnot)
    | some next =>
      rw [drain_of_some hc]
      obtain ⟨_, rfl⟩ := catchUp?_eq_some hc
      obtain ⟨l, hl, hsolvent, hfine⟩ := h
      refine ih ⟨l.catchUp, List.mem_map_of_mem hl, hsolvent.catchUp, fun hcoarse => hfine ?_⟩
      unfold IsCoarse at hcoarse
      rwa [catchUp_config] at hcoarse

theorem solvent_of_mem_run (ops : List (Op ℚ)) : ∀ l ∈ (run {} ops).loops, l.Solvent := by
  apply forall_mem_run
  · exact fun config hcheck => ⟨le_refl (0 : ℚ), cap_pos hcheck⟩
  · intro t id op l h
    cases op with
    | register config | setFrame frame => exact h
    | update frameTime => exact h.advance frameTime t.frame
    | catchUp =>
      simp only [Op.onLoop]
      split
      · exact h.catchUp
      · exact h
    | settle =>
      simp only [Op.onLoop, Loop.settle]
      split
      · exact h
      · exact ⟨h.debt_nonneg, h.cap_pos⟩
    | record other millis =>
      simp only [Op.onLoop]
      split
      · exact ⟨h.debt_nonneg, h.cap_pos⟩
      · exact h
  · exact fun l hl => absurd hl List.not_mem_nil

/-- Catching up comes to an end exactly when every loop that may step again is coarse. -/
theorem exists_drain_iff (ops : List (Op ℚ)) :
    (∃ n, ((run {} ops).drain n).2.catchUp? = none) ↔ ∀ l ∈ (run {} ops).loops, l.IsCoarse := by
  constructor
  · rintro ⟨n, hn⟩ l hl
    by_contra hfine
    exact drain_behind n ⟨l, hl, solvent_of_mem_run ops l hl, hfine⟩ hn
  · intro h
    refine ⟨((run {} ops).loops.map owed).sum, drain_ends fun l hl => ⟨h l hl, ?_⟩⟩
    exact List.le_sum_of_mem (List.mem_map_of_mem hl)

end LoopTable

end FrameGraph
