import FrameGraph.Frame.Walk

/-! Executing a frame. The frame's delta advances all loops, subscriptions are refreshed
and the plan is walked once; then, as long as some loop is behind, the loops take one
more step and the plan is walked again. Catching up ends after `limit` passes at the
latest; a run that ends before has the same outcome under every greater limit. In the end
every loop that drove an invocation learns how long the invocations that it drove took.
Frames do not measure time: what a stopwatch shows is given to them. -/

namespace FrameGraph

/-- How the passes of a frame ended. -/
inductive Ending
  | done
  | failed (failure : Failure)
  | stillBehind

namespace Progress

variable {β : Type}

/-- Catch up until no loop is behind, a node fails or the limit is reached. -/
def catchUp [Behavior β] (plan : Plan) : Nat → Progress β → Progress β × Ending
  | limit, p =>
    match p.graph.loops.catchUp? with
    | none => (p, .done)
    | some loops =>
      match limit with
      | 0 => (p, .stillBehind)
      | limit + 1 =>
        let pass : Progress β :=
          { p with
            graph := { p.graph with loops }
            report := { p.report with catchUpPasses := p.report.catchUpPasses + 1 } }
        match pass.walk plan .catchUp plan.order with
        | (next, none) => catchUp plan limit next
        | (next, some failure) => (next, .failed failure)

/-- More passes than were needed never change how catching up ends. -/
theorem catchUp_of_le [Behavior β] (plan : Plan) {n m : Nat} (h : n ≤ m) (p : Progress β)
    (ended : (catchUp plan n p).2 ≠ .stillBehind) : catchUp plan m p = catchUp plan n p := by
  induction n generalizing m p with
  | zero =>
    unfold catchUp at ended ⊢
    split
    · rfl
    · next hbehind => simp [hbehind] at ended
  | succ n ih =>
    obtain ⟨m, rfl⟩ : ∃ k, m = k + 1 := ⟨m - 1, by omega⟩
    unfold catchUp at ended ⊢
    split
    · rfl
    · next hbehind =>
      simp only [hbehind] at ended
      dsimp only at ended ⊢
      split
      · next hwalk =>
        simp only [hwalk] at ended
        exact ih (by omega) _ ended
      · rfl

/-- The main pass, then the catch-up passes. -/
def passes [Behavior β] (plan : Plan) (limit : Nat) (p : Progress β) : Progress β × Ending :=
  match p.walk plan .main plan.order with
  | (next, none) => next.catchUp plan limit
  | (next, some failure) => (next, .failed failure)

end Progress

/-- The nanoseconds that the invocations of a frame take, in the order in which they end. -/
abbrev Stopwatch := Nat → Nat

/-- A stopwatch at rest. -/
def Stopwatch.still : Stopwatch := fun _ => 0

/-- A call that changes a graph: the graph after it, its answer and what happened. -/
structure Outcome (β ε α : Type) where
  graph : Graph β
  answer : Except ε α
  journal : Array Event := #[]

namespace Graph

variable {β : Type} (g : Graph β)

/-- The delta of the next frame, and the graph with its timer read if that decides. -/
def frameDelta (override : Option Float) : Float × Graph β :=
  match override with
  | some delta => (delta, g)
  | none =>
    let (nanos, timer) := g.timer.lap
    (seconds nanos, { g with timer })

/-- The graph at the beginning of a frame, before its loops advance. -/
def begin : Graph β := { g with frame := g.frame + 1, loops := g.loops.setFrame (g.frame + 1) }

/-- Advance the loops and refresh the subscriptions. -/
def advance (delta : Float) : Graph β := { g with loops := g.loops.update delta }.propagate

/-- Give the loops their flags of the main pass back. -/
def settle : Graph β := { g with loops := g.loops.settle }

/-- Record the times of the loops that have one. -/
def record (millis? : LoopId → Option Float) : Graph β :=
  { g with loops := g.loops.recordAll millis? }

end Graph

namespace Progress

variable {β : Type} (p : Progress β)

/-- The milliseconds of the invocations that a loop drove, if it drove any. -/
def millis? (watch : Stopwatch) (l : LoopId) : Option Float :=
  p.driving.zipIdx.foldl
    (fun spent (driver, turn) =>
      if driver = some l then some (spent.getD 0 + seconds (watch turn) * 1000) else spent)
    none

/-- The graph when no pass is left. -/
def settled (watch : Stopwatch) : Graph β := p.graph.settle.record (p.millis? watch)

end Progress

namespace Graph

variable {β : Type} (g : Graph β)

/-- Run one frame of a plan. -/
def runFrame [Behavior β] (limit : Nat) (plan : Plan) (override : Option Float)
    (watch : Stopwatch) : Outcome β ExecuteError FrameReport :=
  let (delta, timed) := g.frameDelta override
  let begun := timed.begin
  let start : Progress β :=
    { graph := begun.advance delta
      report := { frame := begun.frame, delta }
      journal := ((begun.loops.reports delta).map Event.loop).toArray }
  let (p, ending) := start.passes plan limit
  let settled := p.settled watch
  match ending with
  | .done => ⟨settled, .ok p.report, p.journal.push (.completed p.report)⟩
  | .failed failure =>
    let name := settled.nameOf failure.node
    ⟨settled, .error (.nodeFailed name failure.error p.report),
      p.journal.push (.failed name begun.frame failure.error)⟩
  | .stillBehind => ⟨settled, .error (.stillBehind p.report), p.journal⟩

/-- The greatest number of catch-up passes in a frame, as far as a 32-bit counter reaches. -/
def passLimit : Nat := 4294967295

/-- Run one frame of the installed plan, if it is up to date. -/
def execute [Behavior β] (override : Option Float) (watch : Stopwatch := .still)
    (limit : Nat := passLimit) : Outcome β ExecuteError FrameReport :=
  match g.plan with
  | none => ⟨g, .error .notCompiled, #[]⟩
  | some plan =>
    if g.isOutdated then ⟨g, .error .planOutdated, #[]⟩
    else g.runFrame limit plan override watch

end Graph

end FrameGraph
