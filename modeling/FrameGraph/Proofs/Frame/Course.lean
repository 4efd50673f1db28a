import FrameGraph.Proofs.Frame.Settled

/-! The course of a frame, however it ends. The main pass begins with the frame; a catch-up pass
begins when the pass before has completed and some loop is still behind. Whatever ends the
frame, its last state is where the last pass to begin has come to. The invocations that a frame
records are those that its passes make. -/

namespace FrameGraph

def Ending.failure? : Ending → Option Failure
  | .failed failure => some failure
  | .done | .stillBehind => none

variable {β : Type} [Behavior β]

namespace Graph

variable {g : Graph β} {plan : Plan} {override : Option Float} {watch : Stopwatch} {limit : Nat}

/-- A pass of a frame begins in a state, if the limit allows as many passes. -/
inductive Begins (g : Graph β) (plan : Plan) (override : Option Float) : Pass → Progress β → Prop
  | main : Begins g plan override .main (g.opening override)
  | catchUp {pass : Pass} {start last : Progress β} {loops : LoopTable Float}
      (before : Begins g plan override pass start)
      (completed : start.walk plan pass plan.order = (last, none))
      (behind : last.graph.loops.catchUp? = some loops) :
      Begins g plan override .catchUp (last.beginPass loops)

/-- What the beginning of the frame has, and walks and the beginnings of passes keep, all passes of
the frame begin with. -/
theorem Begins.invariant {P : Progress β → Prop} (hopening : P (g.opening override))
    (hwalk : ∀ pass p last, P p → p.walk plan pass plan.order = (last, none) → P last)
    (hbegin : ∀ p loops, P p → p.graph.loops.catchUp? = some loops → P (p.beginPass loops))
    {pass : Pass} {start : Progress β} (h : g.Begins plan override pass start) : P start := by
  induction h with
  | main => exact hopening
  | catchUp before completed behind ih => exact hbegin _ _ (hwalk _ _ _ ih completed) behind

theorem Begins.effects {pass : Pass} {start : Progress β} (h : g.Begins plan override pass start) :
    Effects g start.graph := by
  refine h.invariant (P := fun p => Effects g p.graph) (g.advance_effects override)
    (fun pass p last hp hwalk => ?_) fun p loops hp hbehind => ?_
  · exact hp.trans (Progress.effects_of_walk hwalk)
  · exact hp.trans (Effects.time p.graph _ _ (LoopTable.length_catchUp? hbehind))

theorem Begins.catchUp_last {pass : Pass} {start last q : Progress β} {ending : Ending}
    (h : g.Begins plan override pass start)
    (completed : start.walk plan pass plan.order = (last, none))
    (hend : last.catchUp plan limit = (q, ending)) :
    ∃ pass start, g.Begins plan override pass start ∧
      start.walk plan pass plan.order = (q, ending.failure?) := by
  induction limit generalizing pass start last with
  | zero =>
    unfold Progress.catchUp at hend
    split at hend
    all_goals
      obtain ⟨rfl, rfl⟩ := Prod.mk.inj hend
      exact ⟨pass, start, h, completed⟩
  | succ limit ih =>
    unfold Progress.catchUp at hend
    split at hend
    · obtain ⟨rfl, rfl⟩ := Prod.mk.inj hend
      exact ⟨pass, start, h, completed⟩
    · next loops hbehind =>
      have hnext : g.Begins plan override .catchUp (last.beginPass loops) :=
        h.catchUp completed hbehind
      dsimp only at hend
      split at hend
      · next next hwalk => exact ih hnext hwalk hend
      · next next failure hwalk =>
        obtain ⟨rfl, rfl⟩ := Prod.mk.inj hend
        exact ⟨.catchUp, _, hnext, hwalk⟩

/-- The last state of a frame is where its last pass has come to, and what ended the frame is what
ended the pass. -/
theorem passes_last {q : Progress β} {ending : Ending}
    (hend : (g.opening override).passes plan limit = (q, ending)) :
    ∃ pass start, g.Begins plan override pass start ∧
      start.walk plan pass plan.order = (q, ending.failure?) := by
  unfold Progress.passes at hend
  split at hend
  · next main hwalk => exact Begins.main.catchUp_last hwalk hend
  · next main failure hwalk =>
    obtain ⟨rfl, rfl⟩ := Prod.mk.inj hend
    exact ⟨.main, _, .main, hwalk⟩

/-- The graph and the invocations of a frame are those of the state where its last pass has come to.
-/
theorem runFrame_last (g : Graph β) (limit : Nat) (plan : Plan) (override : Option Float)
    (watch : Stopwatch) : ∃ pass start last failure, g.Begins plan override pass start ∧
      start.walk plan pass plan.order = (last, failure) ∧
      (g.runFrame limit plan override watch).graph = last.settled watch ∧
      ∀ c, .invoked c ∈ (g.runFrame limit plan override watch).journal.toList ↔
        .invoked c ∈ last.journal.toList := by
  obtain ⟨last, ending, hpasses, hrun⟩ := g.runFrame_passes limit plan override watch
  obtain ⟨pass, start, hbegins, hwalk⟩ := passes_last hpasses
  refine ⟨pass, start, last, _, hbegins, hwalk, ?_⟩
  rw [hrun]
  cases ending <;> simp

end Graph

/-! ### Invocations -/

namespace Progress

open FrameGraph.Graph

variable {plan : Plan} {pass : Pass} {p q : Progress β} {failure : Option Failure}
  {steps : List Step} {c : Context}

/-- At its turn in a frame in progress a node runs, sees the context, and is left as its work makes
of it in that context, or fails as the work does. -/
structure Hands (p : Progress β) (plan : Plan) (pass : Pass) (c : Context) (n : Node β) : Prop where
  runs : p.graph.runs plan pass c.node = true
  live : p.graph.node? c.node = some n
  context : c = p.context plan pass c.node n
  left : (p.step plan pass (.node c.node)).1.graph.node? c.node =
    some (n.act (p.graph.type? n.type) c).1
  failed : (p.step plan pass (.node c.node)).2 =
    (n.act (p.graph.type? n.type) c).2.map (Failure.mk c.node)

theorem step_hands {s : Step} (hc : .invoked c ∈ (p.step plan pass s).1.journal.toList) :
    .invoked c ∈ p.journal.toList ∨ s = .node c.node ∧ ∃ n, p.Hands plan pass c n := by
  cases s with
  | transfer t => exact .inl (by simpa [step, transfer] using hc)
  | node id =>
    by_cases hruns : p.graph.runs plan pass id = true
    · cases hlive : p.graph.node? id with
      | none => exact .inl (by simpa [step, hruns, hlive, finish] using hc)
      | some n =>
        obtain ⟨remarks, hjournal, _⟩ := invoke_recorded plan pass hlive
        have hsame : (p.step plan pass (.node id)).1.journal =
            (p.invoke plan pass id n).1.journal := by
          simp only [step, hruns, if_true, hlive]
          split <;> next heq => simp only [heq, finish]
        rw [hsame, hjournal, List.mem_append, List.mem_cons] at hc
        rcases hc with hbefore | hself | hremark
        · exact .inl hbefore
        · have hcontext := Event.invoked.inj hself
          have hid : c.node = id := by rw [hcontext]; rfl
          subst hid
          have hturn := step_node plan pass hlive
          rw [turned, if_pos hruns, ← hcontext] at hturn
          exact .inr ⟨rfl, n, hruns, hlive, hcontext, hturn.1, hturn.2⟩
        · simp at hremark
    · have hskip : p.step plan pass (.node id) = (p.skip pass id, none) := if_neg hruns
      rw [hskip] at hc
      cases pass with
      | main => exact .inl (by simpa [skip] using hc)
      | catchUp => exact .inl hc

/-- A walk over some steps comes to the node of the context and hands it the context. -/
def Invokes (p : Progress β) (plan : Plan) (pass : Pass) (steps : List Step) (c : Context) :
    Prop :=
  ∃ before after turn n, steps = before ++ .node c.node :: after ∧
    p.walk plan pass before = (turn, none) ∧ turn.Hands plan pass c n

theorem Invokes.cons {s : Step} {next : Progress β} (hstep : p.step plan pass s = (next, none))
    (h : next.Invokes plan pass steps c) : p.Invokes plan pass (s :: steps) c := by
  obtain ⟨before, after, turn, n, horder, hwalk, hhands⟩ := h
  refine ⟨s :: before, after, turn, n, by rw [horder]; rfl, ?_, hhands⟩
  simp only [walk, hstep, hwalk]

theorem walk_invokes (h : p.walk plan pass steps = (q, failure))
    (hc : .invoked c ∈ q.journal.toList) :
    .invoked c ∈ p.journal.toList ∨ p.Invokes plan pass steps c := by
  induction steps generalizing p with
  | nil =>
    obtain ⟨rfl, _⟩ := Prod.mk.inj h
    exact .inl hc
  | cons s rest ih =>
    have hfirst (hc : .invoked c ∈ (p.step plan pass s).1.journal.toList) :
        .invoked c ∈ p.journal.toList ∨ p.Invokes plan pass (s :: rest) c := by
      refine (step_hands hc).imp_right ?_
      rintro ⟨rfl, n, hhands⟩
      exact ⟨[], rest, p, n, rfl, rfl, hhands⟩
    simp only [walk] at h
    split at h
    · next next heq =>
      rw [heq] at hfirst
      exact (ih h).elim hfirst fun hrest => .inr (hrest.cons heq)
    · next next _ heq =>
      rw [heq] at hfirst
      obtain ⟨rfl, _⟩ := Prod.mk.inj h
      exact hfirst (by cases pass <;> exact hc)

end Progress

namespace Graph

variable {g : Graph β} {plan : Plan} {override : Option Float} {watch : Stopwatch} {limit : Nat}

/-- A pass of the frame comes to the node of the context, and the node is handed the context. -/
def Makes (g : Graph β) (plan : Plan) (override : Option Float) (c : Context) : Prop :=
  ∃ pass start, g.Begins plan override pass start ∧ start.Invokes plan pass plan.order c

theorem Begins.makes {pass : Pass} {start : Progress β} {c : Context}
    (h : g.Begins plan override pass start) (hc : .invoked c ∈ start.journal.toList) :
    g.Makes plan override c := by
  induction h with
  | main => simp [opening] at hc
  | catchUp before completed behind ih =>
    exact (Progress.walk_invokes completed hc).elim ih fun h => ⟨_, _, before, h⟩

/-- The invocations that a frame records are those that it makes, however it ends: some pass comes
to the node, its behavior is handed the recorded context and no other, and the node is left with
what the behavior makes of it. -/
theorem runFrame_makes {c : Context}
    (hc : .invoked c ∈ (g.runFrame limit plan override watch).journal.toList) :
    g.Makes plan override c := by
  obtain ⟨pass, start, last, failure, hbegins, hwalk, _, hjournal⟩ :=
    g.runFrame_last limit plan override watch
  exact (Progress.walk_invokes hwalk ((hjournal c).mp hc)).elim hbegins.makes
    fun h => ⟨pass, start, hbegins, h⟩

end Graph

end FrameGraph
