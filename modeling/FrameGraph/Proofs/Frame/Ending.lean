import FrameGraph.Proofs.Loop.Drain
import FrameGraph.Proofs.Frame.Passes
import FrameGraph.Script
import FrameGraph.Frame.Command

/-! How long a frame catches up. Nodes have no part in it: the passes of a frame end when its
loops, stepped by themselves, are caught up, and there are as many as the loops take steps.
In exact arithmetic that is a matter of their timesteps alone. Frame times, interrupted
catching up and the other modes make no difference, and a timestep within the tolerance
is the only one that is never caught up with. -/

namespace FrameGraph

variable {β : Type} [Behavior β] {plan : Plan} {limit : Nat}

namespace Progress

variable {p q : Progress β}

/-- A pass begins with a step of the loops and ends with the loops as they were at its beginning. -/
theorem CaughtUp.drain (h : CaughtUp plan limit p q) :
    (p.graph.loops.drain limit).2 = q.graph.loops ∧ q.graph.loops.catchUp? = none ∧
      q.report.catchUpPasses = p.report.catchUpPasses + (p.graph.loops.drain limit).1 := by
  induction h with
  | done settled =>
    rw [LoopTable.drain_of_none settled]
    exact ⟨rfl, settled, rfl⟩
  | @pass limit p next q loops behind walked rest ih =>
    have hloops : next.graph.loops = loops := (walk_samePass walked).loops
    have hcount : next.report.catchUpPasses = p.report.catchUpPasses + 1 :=
      walk_catchUpPasses walked
    rw [hloops, hcount] at ih
    rw [LoopTable.drain_of_some behind]
    exact ⟨ih.1, ih.2.1, ih.2.2.trans (Nat.add_right_comm _ 1 _)⟩

theorem catchUp_ends (h : (p.graph.loops.drain limit).2.catchUp? = none) :
    (p.catchUp plan limit).2 ≠ .stillBehind := by
  induction limit generalizing p with
  | zero =>
    have h : p.graph.loops.catchUp? = none := h
    simp [catchUp, h]
  | succ limit ih =>
    unfold catchUp
    split
    · intro heq
      cases heq
    · next loops hbehind =>
      rw [LoopTable.drain_of_some hbehind] at h
      dsimp only
      split
      · next next hwalk =>
        have hloops : next.graph.loops = loops := (walk_samePass hwalk).loops
        exact ih (hloops ▸ h)
      · intro heq
        cases heq

end Progress

namespace Graph

variable {g : Graph β} {override : Option Float} {watch : Stopwatch}

/-- A frame never gives up behind when its loops, stepped by themselves, catch up. -/
theorem runFrame_ends (h : ((g.opening override).graph.loops.drain limit).2.catchUp? = none)
    (report : FrameReport) :
    (g.runFrame limit plan override watch).answer ≠ .error (.stillBehind report) := by
  obtain ⟨last, ending, hpasses, hrun⟩ := g.runFrame_passes limit plan override watch
  rw [hrun]
  cases ending with
  | failed failure | done => exact fun heq => nomatch heq
  | stillBehind =>
    unfold Progress.passes at hpasses
    split at hpasses
    · next main hwalk =>
      have hloops : main.graph.loops = (g.opening override).graph.loops :=
        (Progress.walk_samePass hwalk).loops
      exact absurd (congrArg Prod.snd hpasses) (Progress.catchUp_ends (hloops ▸ h))
    · cases hpasses

/-- A frame without a failure takes as many catch-up passes as its loops, stepped by themselves,
take steps to catch up. -/
theorem runFrame_drained {report : FrameReport}
    (h : (g.runFrame limit plan override watch).answer = .ok report) :
    ((g.opening override).graph.loops.drain limit).2.catchUp? = none ∧
      report.catchUpPasses = ((g.opening override).graph.loops.drain limit).1 := by
  obtain ⟨main, last, hwalk, hcaught, rfl, _, _⟩ := runFrame_ok h
  have hloops : main.graph.loops = (g.opening override).graph.loops :=
    (Progress.walk_samePass hwalk).loops
  have hnone : main.report.catchUpPasses = 0 := Progress.walk_catchUpPasses hwalk
  obtain ⟨hlast, hended, hcount⟩ := hcaught.drain
  rw [← hloops, hlast]
  refine ⟨hended, ?_⟩
  rw [hcount, hnone, Nat.zero_add]

/-- What a frame without a failure leaves of the loops, measured times apart. -/
theorem runFrame_loops {report : FrameReport}
    (hok : (g.runFrame limit plan override watch).answer = .ok report) :
    (g.runFrame limit plan override watch).graph.loops.untimed =
      ((g.opening override).graph.loops.drain limit).2.settle.untimed := by
  obtain ⟨main, last, hwalk, hcaught, _, hgraph, _⟩ := runFrame_ok hok
  rw [hgraph, settled_untimed, ← (Progress.walk_samePass hwalk).loops, hcaught.drain.1]

end Graph

namespace LoopTable

/-- Catching up comes to its end exactly when no loop in the mode of several steps has a timestep
within the tolerance, and a frame ends when the catching up of its loops does. -/
theorem catchUp_ends_iff (ops : List (Op ℚ)) :
    ((∃ n, ((run {} ops).drain n).2.catchUp? = none) ↔
      ∀ l ∈ (run {} ops).loops, l.IsCoarse) ∧
    ∀ (g : Graph β) (limit : Nat) (plan : Plan) (override : Option Float) (watch : Stopwatch),
      (((g.opening override).graph.loops.drain limit).2.catchUp? = none →
        ∀ report, (g.runFrame limit plan override watch).answer ≠ .error (.stillBehind report)) ∧
      ∀ report, (g.runFrame limit plan override watch).answer = .ok report →
        ((g.opening override).graph.loops.drain limit).2.catchUp? = none ∧
          report.catchUpPasses = ((g.opening override).graph.loops.drain limit).1 :=
  ⟨exists_drain_iff ops, fun _ _ _ _ _ => ⟨Graph.runFrame_ends, fun _ => Graph.runFrame_drained⟩⟩

def metronome : Graph Script :=
  (Command.run {} (.registerLoop { name := "physics", timestep := 0.125, cap := 0.25 })).graph

theorem metronome_ends : (∃ n, ((run {} [.register tenth, .update (1 / 2)]).drain n).2.catchUp? =
    none) ∧
    ∀ report,
      (metronome.runFrame 1 {} (some 0.25) .still).answer ≠ .error (.stillBehind report) := by
  obtain ⟨hloops, hframes⟩ :=
    catchUp_ends_iff (β := Script) [.register tenth, .update (1 / 2)]
  refine ⟨hloops.mpr fun l hl _ _ => ?_, (hframes metronome 1 {} (some 0.25) .still).1 ?_⟩
  · have hconfigs :
        (run {} [.register tenth, .update (1 / 2)]).loops.map Loop.config = [tenth] := by
      decide +kernel
    have hconfig := List.mem_map_of_mem (f := Loop.config) hl
    rw [hconfigs, List.mem_singleton] at hconfig
    rw [hconfig]
    decide +kernel
  · have hbehind : ((metronome.opening (some 0.25)).graph.loops.drain 1).2.isBehind = false := by
      decide +kernel
    rw [catchUp?, hbehind]
    rfl

/-- A loop that the tolerance alone makes step. -/
def splinter : LoopConfig ℚ :=
  { name := "splinter", timestep := 1 / 1000000000, cap := 1 / 1000000000 }

/-- The loop is accepted, and after one frame it is behind for ever. -/
theorem splinter_never_ends : splinter.check = .ok () ∧
    ¬∃ n, ((run {} [.register splinter, .update (1 / 1000)]).drain n).2.catchUp? = none := by
  refine ⟨by decide +kernel, fun ⟨n, hn⟩ => drain_behind n ?_ hn⟩
  have hconfigs : (run {} [.register splinter, .update (1 / 1000)]).loops.map Loop.config =
      [splinter] := by decide +kernel
  obtain ⟨l, hl, hconfig⟩ := List.mem_map.mp (hconfigs ▸ List.mem_singleton_self splinter)
  refine ⟨l, hl, solvent_of_mem_run _ l hl, ?_⟩
  unfold Loop.IsCoarse
  rw [hconfig]
  decide +kernel

end LoopTable

end FrameGraph
