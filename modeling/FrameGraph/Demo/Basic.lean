import FrameGraph.Frame.Command

/-! A small frame graph with four loops, run against a simulated clock. Physics, network
and thinking run at fixed rates, rendering on every frame; replication is gated on
physics and network together. The run yields the lines of its log. Wall times are not
measured and shown as a question mark. -/

namespace FrameGraph.Demo

/-- The version of both halves of the library. -/
def version : String := "0.1.0"

/-- The names under which the halves announce themselves. -/
def components : List String := ["Tempograph Core", "Tempograph Graphics"]

def greetings : List Notice :=
  components.map fun name => .info (name ++ " v" ++ version ++ " initialized")

structure Options where
  frames : Nat := 240
  /-- Simulated frame time in seconds. -/
  frameTime : Float := 1.0 / 60.0
  physicsRate : Float := 60.0
  networkRate : Float := 20.0
  thinkRate : Float := 5.0
  catchUp : CatchUp := .multipleSteps
  /-- Every frame whose number this divides is a hitch; zero makes none. -/
  hitchEvery : Option Nat := none
  hitchTime : Float := 0.5
  /-- Run the last rendering pass on a second device. -/
  secondDevice : Bool := false

namespace Options

def isHitch (o : Options) (frame : Nat) : Bool := o.hitchEvery.any fun n => 0 < n && frame % n == 0

end Options

/-- Work that counts its steps and tells of each. -/
structure Worker where
  steps : Int64 := 0

instance : Behavior Worker where
  act worker c :=
    let steps := worker.steps + 1
    let line := c.name ++ s!" step {c.timing.steps} (dt " ++ Decimal.fixed 4 c.timing.delta ++
      "s" ++ (if c.timing.isCatchUp then ", catch-up" else "") ++ ")"
    .note (.notice (.trace line)) (.put ⟨steps⟩ 0 (.int steps))

def workerType (name : String) : NodeType Worker where
  name := name
  outputs := [{ name := "steps", type := .int }]
  work := some (.custom {})

def passType (name : String) (lifetime : Lifetime) (size : Nat) : NodeType Worker where
  name := name
  inputs := [{ name := "in", type := .resource, isOptional := true }]
  outputs := [{ name := "out", type := .resource, lifetime, size }]

/-! ### Running -/

/-- The state of a run: the graph and the log so far. -/
structure State where
  graph : Graph Worker := {}
  log : Array Notice := #[]

abbrev Run := ExceptT Fault (StateM State)

def say (notice : Notice) : Run Unit := modify fun s => { s with log := s.log.push notice }

/-- Run a command on the graph and log what happened. -/
def perform {α : Type} (command : Command Worker α) : Run α := do
  let s ← get
  let outcome := command.run s.graph
  set { s with
    graph := outcome.graph
    log := s.log ++ outcome.journal.filterMap Event.notice? : State }
  match outcome.answer with
  | .ok a => return a
  | .error fault => throw fault

def link (source : NodeId) (sourcePort : Port) (sink : NodeId) (sinkPort : Port) : Run Unit :=
  perform (.connect ⟨source, sourcePort, sink, sinkPort⟩)

/-- Bytes in a mebibyte. -/
def mebibyte : Nat := 1048576

/-- The loops and workers that the final report shows. -/
structure Cast where
  loops : List (String × LoopId)
  workers : List NodeId

/-- Build the graph and compile it. -/
def build (o : Options) : Run Cast := do
  let fixed (name : String) (rate : Float) : LoopConfig Float :=
    { LoopConfig.fixed name (1.0 / rate) with catchUp := o.catchUp }
  let physics ← perform (.registerLoop (fixed "physics" o.physicsRate))
  let network ← perform (.registerLoop (fixed "network" o.networkRate))
  let ai ← perform (.registerLoop (fixed "ai" o.thinkRate))
  let render ← perform (.registerLoop (.everyFrame "render"))
  let simulateType ← perform (.registerType (workerType "Simulate"))
  let replicateType ← perform (.registerType (workerType "Replicate"))
  let thinkType ← perform (.registerType (workerType "Think"))
  let gbufferType ← perform (.registerType (passType "GBuffer" .transient (32 * mebibyte)))
  let lightingType ← perform (.registerType (passType "Lighting" .transient (16 * mebibyte)))
  let postType ← perform (.registerType (passType "Post" .external 0))
  let physicsBridge ← perform (.addBridge "physics_bridge" physics)
  let networkBridge ← perform (.addBridge "network_bridge" network)
  let aiBridge ← perform (.addBridge "ai_bridge" ai)
  let renderBridge ← perform (.addBridge "render_bridge" render)
  let simulate ← perform (.create simulateType "simulate")
  link physicsBridge .loopOut simulate .loopIn
  let both ← perform (.addBoolOp "physics_and_network" .and)
  let replicate ← perform (.create replicateType "replicate")
  link physicsBridge (.data 0) both (.data 0)
  link networkBridge (.data 0) both (.data 1)
  link both (.data 0) replicate .gate
  let think ← perform (.create thinkType "think")
  link aiBridge .loopOut think .loopIn
  let gbuffer ← perform (.create gbufferType "gbuffer")
  let lighting ← perform (.create lightingType "lighting")
  let post ← perform (.create postType "post")
  link gbuffer (.data 0) lighting (.data 0)
  link lighting (.data 0) post (.data 0)
  for pass in [gbuffer, lighting, post] do
    link renderBridge .loopOut pass .loopIn
  if o.secondDevice then
    perform (.setDevice post (some ⟨1⟩))
  let plan ← perform .compile
  say (.info (s!"Compiled {plan.order.length} steps in {plan.waves.length} waves: " ++
    s!"{plan.transfers.length} transfers, {plan.storage.slots.length} storage slots, " ++
    s!"{plan.groups.length} pipeline groups"))
  say (.info ("Execution order: " ++ ", ".intercalate (← get).graph.stepNames))
  return { loops := [("physics", physics), ("network", network), ("ai", ai), ("render", render)]
           workers := [simulate, replicate, think] }

/-- Run one frame; the number of its catch-up passes. -/
def frame (o : Options) (number : Nat) : Run Nat := do
  let isHitch := o.isHitch number
  let time := if isHitch then o.hitchTime else o.frameTime
  perform (.advanceClock time)
  let report ← perform (.execute none)
  if isHitch then
    say (.info (s!"Frame {report.frame}: hitch of " ++ Decimal.fixed 3 time ++
      s!"s, {report.catchUpPasses} catch-up passes, {report.invocations.total} invocations"))
  return report.catchUpPasses

/-- Tell what the loops and the workers did. -/
def summarize (cast : Cast) : Run Unit := do
  let g := (← get).graph
  for (name, id) in cast.loops do
    if let some l := g.loops.get? id then
      say (.info ("  " ++ Text.leftAligned 8 name ++ " steps " ++
        Text.rightAligned 5 (toString l.steps) ++ "  dt " ++ Decimal.fixed 4 l.delta ++
        "s  last ?ms"))
  for worker in cast.workers do
    if let some node := g.node? worker then
      let steps := (node.outputs.head?.bind Value.asInt).getD 0
      say (.info ("  " ++ Text.leftAligned 10 node.name ++ s!" ran {steps} times"))

/-- The whole run. -/
def play (o : Options) : Run Unit := do
  greetings.forM say
  let cast ← build o
  let mut passes := 0
  for i in [1:o.frames + 1] do
    passes := passes + (← frame o i)
  let g := (← get).graph
  say (.info (s!"Simulated {o.frames} frames (" ++
    Decimal.fixed 2 (seconds g.timer.clock.now.toNat) ++ s!"s), {passes} catch-up passes"))
  summarize cast

/-- The log of a run, and the fault that ended it early if one did. -/
def transcript (o : Options) : Array Notice × Option Fault :=
  match (play o).run.run {} with
  | (.ok (), s) => (s.log, none)
  | (.error fault, s) => (s.log, some fault)

/-- The debugging text of a fault. -/
def faultText : Fault → String
  | .loop (.duplicateName name) => "DuplicateName(" ++ Text.quoted name ++ ")"
  | .loop e@(.invalidTimestep name) | .loop e@(.invalidCap name) =>
    Node.recordText "InvalidConfig" [("name", Text.quoted name), ("reason", Text.quoted e.reason)]
  | fault => fault.message

/-- The lines that a log at this level shows, with the fault as the last one. -/
def lines (o : Options) (level : Option Level) : List String :=
  let (log, fault) := transcript o
  Notice.lines level log.toList ++ (fault.map fun f => "Error: " ++ faultText f).toList

end FrameGraph.Demo
