import Mathlib.Logic.Relation
import FrameGraph.Frame.Execute
import FrameGraph.Proofs.Loop.Untimed

/-! What running can do to a graph. A frame changes it by effects of four kinds, however it ends:
time passes, subscriptions are refreshed, a transfer carries a value, a node is invoked. What
each of these keeps is kept by every frame. -/

namespace FrameGraph

variable {β : Type} [Behavior β]

namespace Graph

inductive Effect (g : Graph β) : Graph β → Prop
  /-- The loops, the timer or the count of frames move on. -/
  | time (loops : LoopTable Float) (timer : Timer) (frame : Nat)
      (registered : loops.loops.length = g.loops.loops.length) :
      Effect g { g with loops, timer, frame }
  | propagate : Effect g g.propagate
  | carry (t : Nat) (value : Value) : Effect g { g with carried := g.carried.set t value }
  | invoke (id : NodeId) (n : Node β) (type : NodeType β) (work : Work β) (c : Context)
      (live : g.node? id = some n) (known : g.type? n.type = some type) (works : n.work = some work)
      (params : c.params = n.params) :
      Effect g (g.modifyNode id fun m =>
        let result := (Behavior.act work c).run type.outputs n.outputs
        { m with work := some result.next, outputs := result.outputs })

abbrev Effects : Graph β → Graph β → Prop := Relation.ReflTransGen Effect

theorem Effects.time (g : Graph β) {loops : LoopTable Float} (timer : Timer) (frame : Nat)
    (registered : loops.loops.length = g.loops.loops.length) :
    Effects g { g with loops, timer, frame } := .single (.time loops timer frame registered)

end Graph

open FrameGraph.Graph

namespace Progress

omit [Behavior β] in
theorem skip_graph (p : Progress β) (pass : Pass) (id : NodeId) :
    (p.skip pass id).graph = p.graph := by
  cases pass <;> rfl

omit [Behavior β] in
theorem abandon_graph (p : Progress β) (pass : Pass) (rest : List Step) :
    (p.abandon pass rest).graph = p.graph := by
  cases pass <;> rfl

theorem invoke_effects (p : Progress β) (plan : Plan) (pass : Pass) {id : NodeId} {n : Node β}
    (live : p.graph.node? id = some n) : Effects p.graph (p.invoke plan pass id n).1.graph := by
  unfold invoke
  dsimp only
  split
  · next work type works known => exact .single (.invoke id n type work _ live known works rfl)
  · exact .refl

theorem step_effects (p : Progress β) (plan : Plan) (pass : Pass) (s : Step) :
    Effects p.graph (p.step plan pass s).1.graph := by
  cases s with
  | transfer t => exact .single (.carry t _)
  | node id =>
    simp only [step]
    split
    · split
      · exact .refl
      · next node live =>
        have hinvoke := p.invoke_effects plan pass live
        split
        · next next heq => rw [heq] at hinvoke; exact hinvoke
        · next next error heq => rw [heq] at hinvoke; exact hinvoke
    · rw [skip_graph]

theorem walk_effects (plan : Plan) (pass : Pass) (steps : List Step) (p : Progress β) :
    Effects p.graph (p.walk plan pass steps).1.graph := by
  induction steps generalizing p with
  | nil => exact .refl
  | cons s rest ih =>
    have hstep := p.step_effects plan pass s
    simp only [walk]
    split
    · next next heq => rw [heq] at hstep; exact hstep.trans (ih next)
    · next next failure heq => rw [heq] at hstep; rw [abandon_graph]; exact hstep

theorem effects_of_walk {p q : Progress β} {plan : Plan} {pass : Pass} {steps : List Step}
    {failure : Option Failure} (h : p.walk plan pass steps = (q, failure)) :
    Effects p.graph q.graph := by
  have heffects := p.walk_effects plan pass steps
  rwa [h] at heffects

theorem catchUp_effects (plan : Plan) (limit : Nat) (p : Progress β) :
    Effects p.graph (p.catchUp plan limit).1.graph := by
  induction limit generalizing p with
  | zero =>
    unfold catchUp
    split <;> exact .refl
  | succ limit ih =>
    unfold catchUp
    split
    · exact .refl
    · next loops hbehind =>
      have hloops := Effects.time p.graph p.graph.timer p.graph.frame
        (LoopTable.length_catchUp? hbehind)
      have hwalk := walk_effects plan .catchUp plan.order
        { p with
          graph := { p.graph with loops }
          report := { p.report with catchUpPasses := p.report.catchUpPasses + 1 } }
      dsimp only
      split
      · next next heq => rw [heq] at hwalk; exact (hloops.trans hwalk).trans (ih next)
      · next next failure heq => rw [heq] at hwalk; exact hloops.trans hwalk

theorem passes_effects (plan : Plan) (limit : Nat) (p : Progress β) :
    Effects p.graph (p.passes plan limit).1.graph := by
  have hwalk := walk_effects plan .main plan.order p
  unfold passes
  split
  · next next heq => rw [heq] at hwalk; exact hwalk.trans (catchUp_effects plan limit next)
  · next next failure heq => rw [heq] at hwalk; exact hwalk

end Progress

namespace Graph

theorem advance_effects (g : Graph β) (override : Option Float) :
    Effects g ((g.frameDelta override).2.begin.advance (g.frameDelta override).1) := by
  have hdelta : Effects g (g.frameDelta override).2 := by
    cases override with
    | none => exact .time g _ g.frame rfl
    | some delta => exact .refl
  have hbegin (k : Graph β) : Effects k k.begin := .time k k.timer (k.frame + 1) rfl
  have hupdate (k : Graph β) (delta : Float) :
      Effects k { k with loops := k.loops.update delta } :=
    .time k k.timer k.frame (List.length_map _)
  exact ((hdelta.trans (hbegin _)).trans (hupdate _ _)).tail .propagate

theorem settled_effects (p : Progress β) (watch : Stopwatch) :
    Effects p.graph (p.settled watch) :=
  .time p.graph p.graph.timer p.graph.frame
    ((LoopTable.length_recordAll _ _).trans (List.length_map _))

/-- A frame is made of effects, however it ends. -/
theorem runFrame_effects (g : Graph β) (limit : Nat) (plan : Plan) (override : Option Float)
    (watch : Stopwatch) : Effects g (g.runFrame limit plan override watch).graph := by
  have hend (start : Progress β)
      (h : start.graph = (g.frameDelta override).2.begin.advance (g.frameDelta override).1) :
      Effects g ((start.passes plan limit).1.settled watch) := by
    have hpasses := start.passes_effects plan limit
    rw [h] at hpasses
    exact ((g.advance_effects override).trans hpasses).trans (settled_effects _ watch)
  unfold runFrame
  dsimp only
  split <;> exact hend _ rfl

end Graph

end FrameGraph
