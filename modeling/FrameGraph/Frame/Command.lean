import FrameGraph.Frame.Execute

/-! Everything an application can do to a graph, as data. A command is indexed by the
type of its answer; running it gives the graph after it, the answer or a fault, and
what happened. The graphs that an application can reach are those that commands lead
to from a new one, and a command that fails leads somewhere too. -/

namespace FrameGraph

inductive Command (β : Type) : Type → Type
  | registerLoop (config : LoopConfig Float) : Command β LoopId
  | registerType (type : NodeType β) : Command β TypeId
  | create (type : TypeId) (name : String) : Command β NodeId
  | addBridge (name : String) (loop : LoopId) : Command β NodeId
  | addBoolOp (name : String) (op : BoolOp) : Command β NodeId
  | addConstant (name : String) (value : Bool) : Command β NodeId
  | remove (node : NodeId) : Command β Unit
  | setParam (node : NodeId) (name : String) (value : Value) : Command β Unit
  | setDevice (node : NodeId) (device : Option Device) : Command β Unit
  | setBehavior (node : NodeId) (behavior : β) : Command β Unit
  | connect (connection : Connection) : Command β Unit
  /-- The answer is whether the connection existed. -/
  | disconnect (connection : Connection) : Command β Bool
  | setConfig (config : CompileConfig) : Command β Unit
  | propagate : Command β Unit
  | compile : Command β Plan
  /-- Move the clock under the graph's timer. -/
  | advanceClock (seconds : Float) : Command β Unit
  /-- The stopwatch shows how long the invocations of the frame take. -/
  | execute (delta : Option Float) (watch : Stopwatch := .still) : Command β FrameReport

/-- Why a command failed. -/
inductive Fault
  | loop (e : LoopError)
  | graph (e : GraphError)
  | compile (e : CompileError)
  | execute (e : ExecuteError)
  /-- A time that a clock cannot be moved by. -/
  | clock

namespace Fault

def message : Fault → String
  | loop e => e.message
  | graph e => e.message
  | compile e => e.message
  | execute e => e.message
  | clock => "time too large for a clock"

end Fault

namespace Outcome

variable {β ε α : Type}

/-- The outcome of a call that answers or refuses, and yields a graph in either case. -/
def ofCall (fault : ε → Fault) (call : Graph β × Except ε α) : Outcome β Fault α :=
  ⟨call.1, call.2.mapError fault, #[]⟩

/-- The outcome with entries that follow from the answer. -/
def telling (o : Outcome β ε α) (events : α → List Event) : Outcome β ε α :=
  match o.answer with
  | .ok a => { o with journal := o.journal ++ events a }
  | .error _ => o

end Outcome

namespace Command

variable {β α : Type}

def run [Behavior β] (g : Graph β) : Command β α → Outcome β Fault α
  | registerLoop config =>
    (Outcome.ofCall .loop (g.registerLoop config)).telling fun id =>
      [.loop (.registered id config)]
  | registerType type => .ofCall .graph (g.registerType type)
  | create type name => .ofCall .graph (g.create type name)
  | addBridge name loop => .ofCall .graph (g.addBridge name loop)
  | addBoolOp name op => .ofCall .graph (g.addBoolOp name op)
  | addConstant name value => .ofCall .graph (g.addConstant name value)
  | remove node => .ofCall .graph (g.remove node)
  | setParam node name value => .ofCall .graph (g.setParam node name value)
  | setDevice node device => .ofCall .graph (g.setDevice node device)
  | setBehavior node behavior => .ofCall .graph (g.setBehavior node behavior)
  | connect connection => .ofCall .graph (g.connect connection)
  | disconnect connection =>
    let (next, existed) := g.disconnect connection
    ⟨next, .ok existed, #[]⟩
  | setConfig config => ⟨g.setConfig config, .ok (), #[]⟩
  | propagate => ⟨g.propagate, .ok (), #[]⟩
  | compile =>
    (Outcome.ofCall .compile g.compile).telling fun plan => [.compiled plan]
  | advanceClock seconds =>
    match g.timer.clock.advanceSeconds? seconds with
    | some clock => ⟨{ g with timer := { g.timer with clock } }, .ok (), #[]⟩
    | none => ⟨g, .error .clock, #[]⟩
  | execute delta watch =>
    let outcome := g.execute delta watch
    ⟨outcome.graph, outcome.answer.mapError .execute, outcome.journal⟩

end Command

end FrameGraph
