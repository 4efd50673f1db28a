import FrameGraph.Loop.Config
import FrameGraph.Decimal.Layout

/-! One update loop over time. A fixed loop adds every frame's accepted time to its
debt and triggers when the debt covers a timestep, up to a tolerance; a variable
loop triggers every frame. Catching up takes further steps within the frame: a loop
that is behind steps, any other loop stands idle with its trigger flag parked until
the frame settles. -/

namespace FrameGraph

/-- The number of a registered loop, counted from zero in order of registration. -/
structure LoopId where
  index : Nat
  deriving DecidableEq, Repr, Ord

namespace LoopId

def text (id : LoopId) : String := s!"loop#{id.index}"

end LoopId

/-- A registered loop and its state. -/
structure Loop (τ : Type) where
  config : LoopConfig τ
  /-- Whether nodes driven by the loop run on the current step. -/
  triggered : Bool := false
  /-- Seconds to simulate on the current step. -/
  delta : τ
  /-- Steps taken since registration. -/
  steps : Nat := 0
  /-- Index of the latest frame. -/
  frame : Nat := 0
  /-- Recorded wall time in milliseconds. -/
  millis : τ
  /-- Time not yet consumed by a fixed step. -/
  debt : τ
  /-- The flag of the frame's first step, kept while the loop sits out further ones. -/
  parked : Option Bool := none

namespace Loop

section Timing

variable {τ : Type} [Seconds τ] [Add τ] [Sub τ] [LT τ] [LE τ] [DecidableLT τ] [DecidableLE τ]

def ofConfig (config : LoopConfig τ) : Loop τ :=
  { config, delta := Seconds.zero, millis := Seconds.zero, debt := Seconds.zero }

/-- The debt covers a whole timestep, or misses it by no more than the tolerance. -/
def owes (l : Loop τ) : Bool := l.config.timestep ≤ l.debt + Seconds.tolerance

/-- The debt after one timestep is paid, never below zero. -/
def paid (l : Loop τ) : τ := Seconds.larger (l.debt - l.config.timestep) Seconds.zero

/-- Take one fixed step. -/
def step (l : Loop τ) : Loop τ :=
  { l with triggered := true, delta := l.config.timestep, steps := l.steps + 1, debt := l.paid }

/-- Take one step over the whole debt and drop it. The delta is at most the loop's bound, or its
timestep where that is longer. -/
def collapse (l : Loop τ) : Loop τ :=
  { l with
    triggered := true
    delta := Seconds.smaller l.debt (Seconds.larger l.config.cap l.config.timestep)
    steps := l.steps + 1
    debt := Seconds.zero }

/-- The step that a fixed loop takes in the frame's update. -/
def trigger (l : Loop τ) : Loop τ :=
  if l.config.catchUp = .fireAndForget then l.collapse else l.step

/-- The loop after the update of a frame. -/
def advance (l : Loop τ) (frameTime : τ) (frame : Nat) : Loop τ :=
  let accepted := l.config.accepted frameTime
  let l := { l with parked := none, frame }
  if l.config.isVariable then
    { l with triggered := true, delta := accepted, steps := l.steps + 1 }
  else
    let l := { l with debt := l.debt + accepted }
    if l.owes then l.trigger else { l with triggered := false }

/-- Only a fixed loop in the mode of several steps may step again within a frame. -/
def isBehind (l : Loop τ) : Bool :=
  !l.config.isVariable && l.config.catchUp == .multipleSteps && l.owes

/-- Stand idle for one catch-up step. Only the first idle step parks the flag. -/
def idle (l : Loop τ) : Loop τ :=
  { l with parked := l.parked.or (some l.triggered), triggered := false }

def catchUp (l : Loop τ) : Loop τ := if l.isBehind then l.step else l.idle

/-- Give back the parked flag. -/
def settle (l : Loop τ) : Loop τ :=
  match l.parked with
  | none => l
  | some flag => { l with triggered := flag, parked := none }

end Timing

/-- What one loop reports during an update. -/
inductive Report
  /-- The frame time was cut to the loop's bound. -/
  | clamped (name : String) (frameTime cap : Float)
  /-- The loop stepped once and still owes a step. -/
  | carrying (name : String) (debt : Float)
  /-- A loop was registered. -/
  | registered (id : LoopId) (config : LoopConfig Float)

namespace Report

def notice : Report → Notice
  | clamped name frameTime cap =>
    .warn (s!"Loop '{name}': frame time " ++ Decimal.fixed 4 frameTime ++
      "s exceeds max catch-up " ++ Decimal.fixed 4 cap ++ "s, clamping")
  | carrying name debt =>
    .debug (s!"Loop '{name}': carrying " ++ Decimal.fixed 4 debt ++ "s of debt to later frames")
  | registered id config =>
    .debug (s!"Registered loop '{config.name}' as " ++ id.text ++ " (timestep " ++
      Decimal.render .plain config.timestep ++ "s, " ++ config.catchUp.name ++ ")")

end Report

/-- The reports of a loop that is about to advance. -/
def reports (l : Loop Float) (frameTime : Float) (frame : Nat) : List Report :=
  let time := LoopConfig.positive frameTime
  let after := l.advance frameTime frame
  (if l.config.cap < time then [.clamped l.config.name time l.config.cap] else []) ++
  (if !l.config.isVariable && l.config.catchUp == .singleStep && after.triggered && after.owes then
    [.carrying l.config.name after.debt]
  else [])

end Loop

end FrameGraph
