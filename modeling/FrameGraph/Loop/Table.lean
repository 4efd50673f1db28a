import FrameGraph.Loop.Basic

/-! The loops of one graph, numbered in order of registration and never removed. All
loops advance together once per frame; after that the table catches up one step at a
time until no loop is behind. -/

namespace FrameGraph

structure LoopTable (τ : Type) where
  loops : List (Loop τ) := []
  /-- Stamped on the loops by the next update. -/
  frame : Nat := 0

namespace LoopTable

variable {τ : Type}

def get? (t : LoopTable τ) (id : LoopId) : Option (Loop τ) := t.loops[id.index]?

/-- The first loop of this name. Names are distinct, so it is the only one. -/
def find? (t : LoopTable τ) (name : String) : Option LoopId :=
  (t.loops.findIdx? fun l => l.config.name == name).map LoopId.mk

def has (t : LoopTable τ) (id : LoopId) : Bool := id.index < t.loops.length

def size (t : LoopTable τ) : Nat := t.loops.length

/-- Unknown loops never trigger. -/
def isTriggered (t : LoopTable τ) (id : LoopId) : Bool := (t.get? id).any Loop.triggered

def setFrame (t : LoopTable τ) (frame : Nat) : LoopTable τ := { t with frame }

/-- Record the wall time of a loop's nodes. Unknown loops are ignored. -/
def record (t : LoopTable τ) (id : LoopId) (millis : τ) : LoopTable τ :=
  { t with loops := t.loops.modify id.index fun l => { l with millis } }

/-- Record the wall times of the loops that have one. -/
def recordAll (t : LoopTable τ) (millis? : LoopId → Option τ) : LoopTable τ :=
  (List.range t.size).foldl
    (fun t index =>
      match millis? ⟨index⟩ with
      | some millis => t.record ⟨index⟩ millis
      | none => t) t

/-- Give every parked flag back. -/
def settle (t : LoopTable τ) : LoopTable τ := { t with loops := t.loops.map Loop.settle }

variable [Seconds τ] [Add τ] [Sub τ] [LT τ] [LE τ] [DecidableLT τ] [DecidableLE τ]

/-- Add a loop. A taken name is refused before the configuration is checked. -/
def enroll (t : LoopTable τ) (config : LoopConfig τ) : LoopTable τ × Except LoopError LoopId :=
  if (t.find? config.name).isSome then (t, .error (.duplicateName config.name))
  else
    match config.check with
    | .error e => (t, .error e)
    | .ok () => ({ t with loops := t.loops ++ [Loop.ofConfig config] }, .ok ⟨t.loops.length⟩)

/-- The table with a further loop, unless that is refused. -/
def register (t : LoopTable τ) (config : LoopConfig τ) : Except LoopError (LoopTable τ × LoopId) :=
  let (next, answer) := t.enroll config
  answer.map fun id => (next, id)

/-- Advance every loop by one frame. -/
def update (t : LoopTable τ) (frameTime : τ) : LoopTable τ :=
  { t with loops := t.loops.map fun l => l.advance frameTime t.frame }

/-- Some loop still owes a whole step. -/
def isBehind (t : LoopTable τ) : Bool := t.loops.any Loop.isBehind

/-- One more step on every loop that is behind, or no answer when there is none. -/
def catchUp? (t : LoopTable τ) : Option (LoopTable τ) :=
  if t.isBehind then some { t with loops := t.loops.map Loop.catchUp } else none

/-- Catch up at most `limit` times; how often it took a step, and the table after. -/
def drain (t : LoopTable τ) : Nat → Nat × LoopTable τ
  | 0 => (0, t)
  | limit + 1 =>
    match t.catchUp? with
    | none => (0, t)
    | some next =>
      let (taken, last) := next.drain limit
      (taken + 1, last)

/-- The reports of an update, loop by loop. -/
def reports (t : LoopTable Float) (frameTime : Float) : List Loop.Report :=
  t.loops.flatMap fun l => l.reports frameTime t.frame

end LoopTable

end FrameGraph
