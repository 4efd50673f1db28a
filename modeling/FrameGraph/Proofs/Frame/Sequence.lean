import FrameGraph.Proofs.Frame.Turns
import FrameGraph.Proofs.Graph.Peers

/-! Frames one after the other, with time passing between them. Each frame begins with the graph
that the one before left; a graph with a plan that is up to date keeps it through all of them. A
frame completes exactly when its passes do. -/

namespace FrameGraph

variable {β : Type} [Behavior β]

/-- The seconds that pass before a frame, and its delta unless the timer decides. -/
structure Beat where
  elapsed : Float := 0
  delta : Option Float

structure Frame (β : Type) where
  graph : Graph β
  delta : Option Float
  watch : Stopwatch

def Frame.outcome (f : Frame β) : Outcome β ExecuteError FrameReport :=
  f.graph.execute f.delta f.watch

/-- Two frames leave the same measured times for the loops in question. -/
def Frame.SameTimes (of : LoopId → Prop) (f f' : Frame β) : Prop :=
  f.outcome.graph.loops.SameTimes of f'.outcome.graph.loops

def Frame.isOk (f : Frame β) : Bool := f.outcome.answer.toOption.isSome

theorem Frame.isOk_iff {f : Frame β} : f.isOk = true ↔ ∃ r, f.outcome.answer = .ok r := by
  unfold Frame.isOk
  cases f.outcome.answer <;> simp [Except.toOption]

namespace Graph

def wait (g : Graph β) (seconds : Float) : Graph β :=
  (Command.run g (.advanceClock seconds : Command β Unit)).graph

/-- The frames that a graph executes from beat to beat, each with its own stopwatch. -/
def frames (g : Graph β) (watches : Nat → Stopwatch) : List Beat → List (Frame β)
  | [] => []
  | beat :: rest =>
    let f : Frame β := ⟨g.wait beat.elapsed, beat.delta, watches 0⟩
    f :: f.outcome.graph.frames (fun n => watches (n + 1)) rest

/-- Two frames in a row. In the first the loop of the relay has to catch up, in the second it has
not yet come to its next step. -/
def relayBeats : List Beat := [⟨0, some 0.25⟩, ⟨0, some 0.0625⟩]

/-- Stopwatches that show so many milliseconds first, then one more from turn to turn and from frame
to frame. -/
def relayWatches (first : Nat) : Nat → Stopwatch :=
  fun frame turn => 1000000 * (first + frame + turn)

structure Ready (g : Graph β) (plan : Plan) : Prop where
  installed : g.plan = some plan
  current : g.isOutdated = false
  runBy : g.RunBy plan

variable {g h : Graph β} {plan : Plan} {limit : Nat} {override : Option Float} {watch : Stopwatch}

omit [Behavior β] in
theorem Ready.of_sameShape (hg : g.Ready plan) (hs : SameShape g h) : h.Ready plan :=
  ⟨hs.plan.trans hg.installed, hs.isOutdated.trans hg.current, hg.runBy.of_sameShape hs⟩

omit [Behavior β] in
theorem isCompiled_iff :
    g.isCompiled = true ↔ ∃ plan, g.plan = some plan ∧ g.isOutdated = false := by
  simp [isCompiled, Option.isSome_iff_exists]

theorem Reachable.ready (hg : Reachable g) (hplan : g.plan = some plan)
    (hcurrent : g.isOutdated = false) : g.Ready plan :=
  ⟨hplan, hcurrent, hg.runBy hplan hcurrent⟩

theorem Ready.execute_eq (hg : g.Ready plan) :
    g.execute override watch limit = g.runFrame limit plan override watch := by
  rw [Graph.execute, hg.installed]
  simp [hg.current]

theorem Ready.passes (hg : g.Ready plan) {report : FrameReport}
    (hok : (g.execute override watch limit).answer = .ok report) :
    ∃ main last, (g.opening override).walk plan .main plan.order = (main, none) ∧
      main.CaughtUp plan limit last ∧ report = last.report ∧
      (g.execute override watch limit).graph = last.settled watch ∧
      (g.execute override watch limit).journal = last.journal.push (.completed last.report) := by
  rw [hg.execute_eq] at hok ⊢
  exact runFrame_ok hok

theorem Ready.execute_sameShape (hg : g.Ready plan) :
    SameShape g (g.execute override watch limit).graph := by
  rw [hg.execute_eq]
  exact g.runFrame_sameShape limit plan override watch

theorem Ready.execute (hg : g.Ready plan) : (g.execute override watch limit).graph.Ready plan :=
  hg.of_sameShape hg.execute_sameShape

/-! ### Between frames -/

theorem wait_eq (g : Graph β) (seconds : Float) : g.wait seconds =
    { g with timer := { g.timer with
      clock := (g.timer.clock.advanceSeconds? seconds).getD g.timer.clock } } := by
  unfold wait Command.run
  dsimp only
  split
  · next hclock => rw [hclock]; rfl
  · next hclock => rw [hclock]; rfl

theorem wait_sameShape (g : Graph β) (seconds : Float) : SameShape g (g.wait seconds) := by
  rw [wait_eq]
  exact .timing g g.loops _ g.frame

theorem Ready.wait (hg : g.Ready plan) (seconds : Float) : (g.wait seconds).Ready plan :=
  hg.of_sameShape (g.wait_sameShape seconds)

theorem Ready.frames (hg : g.Ready plan) (watches : Nat → Stopwatch) (beats : List Beat) :
    ∀ f ∈ g.frames watches beats, f.graph.Ready plan := by
  induction beats generalizing g watches with
  | nil => exact fun _ hf => nomatch hf
  | cons beat rest ih =>
    exact List.forall_mem_cons.mpr ⟨hg.wait beat.elapsed, ih (hg.wait beat.elapsed).execute _⟩

theorem length_frames (g : Graph β) (watches : Nat → Stopwatch) (beats : List Beat) :
    (g.frames watches beats).length = beats.length := by
  induction beats generalizing g watches with
  | nil => rfl
  | cons beat rest ih => exact congrArg (· + 1) (ih _ _)

theorem Peers.wait (hp : Peers g h) (seconds : Float) :
    Peers (g.wait seconds) (h.wait seconds) := by
  rw [wait_eq, wait_eq, hp.timer]
  exact ⟨hp.types, hp.connections, rfl, hp.frame, hp.slots⟩

/-! ### Openings -/

omit [Behavior β] in
/-- Peers begin a frame as peers, with the same delta. -/
theorem Peers.opening (hp : Peers g h) (override : Option Float) :
    Peers (g.opening override).graph (h.opening override).graph ∧
      (h.opening override).report = (g.opening override).report := by
  have hdelta : (h.frameDelta override).1 = (g.frameDelta override).1 := by
    cases override <;> simp only [frameDelta, hp.timer]
  have htimer : (h.frameDelta override).2.timer = (g.frameDelta override).2.timer := by
    cases override <;> simp only [frameDelta, hp.timer]
  have hframe (k : Graph β) : (k.frameDelta override).2.begin.frame = k.frame + 1 := by
    cases override <;> rfl
  refine ⟨⟨?_, ?_, htimer, ?_, ?_⟩, ?_⟩
  · cases override <;> exact hp.types
  · cases override <;> exact hp.connections
  · exact (hframe h).trans ((congrArg (· + 1) hp.frame).trans (hframe g).symm)
  · rw [opening_slots, opening_slots]
    exact hp.propagate.slots
  · simp only [Graph.opening, hdelta, hframe, hp.frame]

omit [Behavior β] in
theorem opening_held (g : Graph β) (override : Option Float) (id : NodeId) :
    ((g.opening override).graph.node? id).map Node.held = (g.node? id).map Node.held := by
  rw [node?_map, opening_slots, ← node?_map, node?_propagate_held]

end Graph

/-! ### Frames -/

open FrameGraph.Graph

theorem Progress.CaughtUp.catchUp {plan : Plan} {limit : Nat} {p q : Progress β}
    (h : p.CaughtUp plan limit q) : p.catchUp plan limit = (q, .done) := by
  induction h with
  | done settled =>
    unfold Progress.catchUp
    rw [settled]
  | pass behind walked rest ih =>
    unfold Progress.catchUp
    rw [behind]
    dsimp only
    unfold Progress.beginPass at walked
    rw [walked]
    exact ih

theorem Graph.Ready.execute_ok {g : Graph β} {plan : Plan} {limit : Nat}
    {override : Option Float} {watch : Stopwatch} (hg : g.Ready plan) {main last : Progress β}
    (hmain : (g.opening override).walk plan .main plan.order = (main, none))
    (hcaught : main.CaughtUp plan limit last) :
    (g.execute override watch limit).answer = .ok last.report ∧
      (g.execute override watch limit).graph = last.settled watch := by
  obtain ⟨p, ending, hpasses, hrun⟩ := g.runFrame_passes limit plan override watch
  rw [Progress.passes, hmain] at hpasses
  dsimp only at hpasses
  rw [hcaught.catchUp] at hpasses
  obtain ⟨rfl, rfl⟩ := Prod.mk.inj hpasses
  rw [hg.execute_eq, hrun]
  exact ⟨rfl, rfl⟩

end FrameGraph
