import FrameGraph.Frame.Gate

/-! What a frame leaves behind: a report that counts what ran, and a journal of all that
happened, in order. The log of a frame is read off its journal. -/

namespace FrameGraph

/-- Counts per node, in ascending order of the nodes. -/
structure Tally where
  counts : List (NodeId × Nat) := []
  deriving DecidableEq, Repr

namespace Tally

def raise (id : NodeId) : List (NodeId × Nat) → List (NodeId × Nat)
  | [] => [(id, 1)]
  | (k, n) :: rest =>
    if id = k then (k, n + 1) :: rest
    else if id.index < k.index then (id, 1) :: (k, n) :: rest
    else (k, n) :: raise id rest

/-- Count a node once more. -/
def bump (t : Tally) (id : NodeId) : Tally := ⟨raise id t.counts⟩

def count (t : Tally) (id : NodeId) : Nat := (t.counts.lookup id).getD 0

def total (t : Tally) : Nat := t.counts.foldl (fun n entry => n + entry.2) 0

end Tally

structure FrameReport where
  /-- The index of the frame, from one. -/
  frame : Nat
  /-- The frame's delta before any loop cuts it. -/
  delta : Float
  /-- Nodes that ran in the main pass, in plan order. -/
  executed : List NodeId := []
  /-- Nodes that did not, by their gate or after a failure. -/
  skipped : List NodeId := []
  /-- Invocations over all passes. -/
  invocations : Tally := {}
  catchUpPasses : Nat := 0
  /-- Transfers over all passes. -/
  transfers : Nat := 0

/-- Why a graph does not execute a frame, or does not complete it. -/
inductive ExecuteError
  | notCompiled
  | planOutdated
  /-- The frame stopped at a node. -/
  | nodeFailed (node : String) (error : NodeError) (report : FrameReport)
  /-- The loops were still behind after as many catch-up passes as were allowed. -/
  | stillBehind (report : FrameReport)

namespace ExecuteError

def message : ExecuteError → String
  | notCompiled => "the graph has not been compiled"
  | planOutdated => "the graph changed since it was last compiled"
  | nodeFailed node error _ => s!"node '{node}' failed: " ++ error.message
  | stillBehind report => s!"still behind after {report.catchUpPasses} catch-up passes"

end ExecuteError

/-- One entry of a journal. -/
inductive Event
  /-- A loop reported on its update. -/
  | loop (report : Loop.Report)
  /-- A node was passed over in the main pass. -/
  | skipped (node : NodeId) (name : String) (frame : Nat)
  /-- A node was invoked in this context. -/
  | invoked (context : Context)
  /-- A behavior left a note. -/
  | note (remark : Note)
  /-- A transfer copied its value. -/
  | transferred (number : Nat)
  /-- An invocation failed and ended the frame. -/
  | failed (node : String) (frame : Nat) (error : NodeError)
  /-- A plan was compiled. -/
  | compiled (plan : Plan)
  /-- The frame ended without a failure. -/
  | completed (report : FrameReport)

namespace Event

/-- The line that an entry puts into the log. -/
def notice? : Event → Option Notice
  | loop report => some report.notice
  | skipped _ name frame => some (.trace s!"Skipping '{name}' on frame {frame}")
  | invoked _ => none
  | note (.notice n) => some n
  | note (.sample ..) => none
  | transferred _ => none
  | failed node frame error =>
    some (.warn (s!"Node '{node}' failed on frame {frame}: " ++ error.message))
  | compiled plan => some plan.notice
  | completed report =>
    some (.trace (s!"Frame {report.frame} done: {report.executed.length} executed, " ++
      s!"{report.skipped.length} skipped, {report.catchUpPasses} catch-up passes"))

/-- The samples that behaviors took, with the number of inputs each shows. -/
def sample? : Event → Option (Context × Nat)
  | note (.sample context inputs) => some (context, inputs)
  | _ => none

end Event

end FrameGraph
