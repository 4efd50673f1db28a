import FrameGraph.Frame.Journal

/-! One walk over the steps of a plan. A transfer copies the present value of its
source; a node whose turn it is runs or is passed over. The walk stops at the first
node that fails. What a failed invocation wrote stays written. -/

namespace FrameGraph

/-- A frame in progress. -/
structure Progress (β : Type) where
  graph : Graph β
  report : FrameReport
  journal : Array Event := #[]
  /-- The loop that drove each invocation that did not fail, if one did. -/
  driving : List (Option LoopId) := []

/-- The node whose invocation failed. -/
structure Failure where
  node : NodeId
  error : NodeError

namespace Progress

variable {β : Type} (p : Progress β)

def record (events : List Event) : Progress β := { p with journal := p.journal ++ events }

/-- Carry out a transfer. -/
def transfer (plan : Plan) (t : Nat) : Progress β :=
  let value := match plan.transfers[t]? with
    | none => Value.empty
    | some transfer => p.graph.read (.output transfer.source transfer.output)
  { p with
    graph := { p.graph with carried := p.graph.carried.set t value }
    report := { p.report with transfers := p.report.transfers + 1 }
    journal := p.journal.push (.transferred t) }

/-- Pass over a node. Only the main pass reports it. -/
def skip (pass : Pass) (id : NodeId) : Progress β :=
  match pass with
  | .main =>
    { p with
      report := { p.report with skipped := p.report.skipped ++ [id] }
      journal := p.journal.push (.skipped id (p.graph.nameOf id) p.graph.frame) }
  | .catchUp => p

/-- The timing of an invocation: that of the loop that drives the node, or the frame's. -/
def timing (pass : Pass) (node : Node β) : Timing :=
  match (p.graph.drivingLoop? node).bind fun l => (p.graph.loops.get? l).map fun s => (l, s) with
  | some (id, l) => ⟨some id, l.delta, l.steps, pass = .catchUp⟩
  | none => ⟨none, p.report.delta, p.graph.frame, pass = .catchUp⟩

/-- What a node sees at its turn. -/
def context (plan : Plan) (pass : Pass) (id : NodeId) (node : Node β) : Context where
  node := id
  name := node.name
  device := (plan.deviceOf? id).getD .primary
  frame := p.graph.frame
  timing := p.timing pass node
  params := node.params
  inputs := (List.range (((p.graph.type? node.type).map fun t => t.inputs.length).getD 0)).map
    fun input => ((plan.inputSource? id input).map p.graph.read).getD .empty
  loops := if ((p.graph.type? node.type).any fun t => t.features.loopAccess) then some p.graph.loops
    else none

/-- Count an invocation that did not fail, for the loop that drove it. -/
def finish (pass : Pass) (id : NodeId) (driver : Option LoopId) : Progress β :=
  { p with
    report :=
      { p.report with
        executed := if pass = .main then p.report.executed ++ [id] else p.report.executed
        invocations := p.report.invocations.bump id }
    driving := p.driving ++ [driver] }

/-- Run a node's work. A node without work has nothing to do and cannot fail. -/
def invoke [Behavior β] (plan : Plan) (pass : Pass) (id : NodeId) (node : Node β) :
    Progress β × Option NodeError :=
  let context := p.context plan pass id node
  let invoked := { p with journal := p.journal.push (.invoked context) }
  match node.work, p.graph.type? node.type with
  | some work, some type =>
    let result := (Behavior.act work context).run type.outputs node.outputs
    let graph := p.graph.modifyNode id fun n =>
      { n with work := some result.next, outputs := result.outputs }
    ({ invoked with graph }.record (result.notes.map .note), result.failure)
  | _, _ => (invoked, none)

/-- One step of the plan. -/
def step [Behavior β] (plan : Plan) (pass : Pass) : Step → Progress β × Option Failure
  | .transfer t => (p.transfer plan t, none)
  | .node id =>
    if p.graph.runs plan pass id then
      match p.graph.node? id with
      | none => (p.finish pass id none, none)
      | some node =>
        match p.invoke plan pass id node with
        | (next, none) => (next.finish pass id (p.graph.drivingLoop? node), none)
        | (next, some error) => (next, some ⟨id, error⟩)
    else (p.skip pass id, none)

/-- Report the nodes among the remaining steps as skipped, after a failure in the main pass. -/
def abandon (pass : Pass) (rest : List Step) : Progress β :=
  match pass with
  | .main =>
    { p with report :=
      { p.report with skipped := p.report.skipped ++ rest.filterMap Step.node? } }
  | .catchUp => p

/-- Take the steps in order until one fails. -/
def walk [Behavior β] (plan : Plan) (pass : Pass) :
    List Step → Progress β → Progress β × Option Failure
  | [], p => (p, none)
  | s :: rest, p =>
    match p.step plan pass s with
    | (next, none) => walk plan pass rest next
    | (next, some failure) => (next.abandon pass rest, some failure)

end Progress

end FrameGraph
