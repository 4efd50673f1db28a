import Mathlib.Logic.Relation
import FrameGraph.Frame.Command
import FrameGraph.Script
import FrameGraph.Proofs.Loop.History

/-! The graphs that an application can reach, and what one command can do to a graph.
`Edit` lists the effects that a command has on a graph when nothing refuses it, each
with what was checked before it took place; the one command that is no edit runs a
frame. A command leads to its graph by changes, two where a node is created and a
parameter stored on it, none where it is refused. A property that new graphs have and
changes keep is one of all reachable graphs. -/

namespace FrameGraph

def Command.isEdit {β α : Type} : Command β α → Bool
  | .execute .. => false
  | _ => true

namespace Graph

variable {β : Type}

/-- The types of two ends have the ports for what a connection carries, of matching types. -/
def PortsFit (source sink : NodeType β) : Carries → Prop
  | .data output input => ∃ port expected, source.outputs[output]? = some port ∧
      sink.inputs[input]? = some expected ∧ port.type = expected.type
  | .loops => True
  | .gate output => ∃ port, source.outputs[output]? = some port ∧ port.type = .bool

/-- The ends of a connection are live and it carries something between ports that they have. -/
def Fits (g : Graph β) (c : Connection) : Prop :=
  ∃ source sink carried, g.typeOf? c.source = some source ∧ g.typeOf? c.sink = some sink ∧
    c.carries? = some carried ∧ PortsFit source sink carried

/-- One effect of a command that runs no frame. -/
inductive Edit (g : Graph β) : Graph β → Prop
  | registerLoop (config : LoopConfig Float) (loops : LoopTable Float) (id : LoopId)
      (accepted : g.loops.register config = .ok (loops, id)) : Edit g { g with loops }
  | registerType (type : NodeType β) (fresh : g.typeNamed? type.name = none) :
      Edit g { g with types := g.types ++ [type] }
  | create (typeId : TypeId) (type : NodeType β) (name : String)
      (known : g.type? typeId = some type) (fresh : g.nodeNamed? name = none)
      (room : ∀ max, type.maxInstances = some max → (g.instances typeId).length < max) :
      Edit g (g.place (.ofType ⟨g.slots.length⟩ name typeId type))
  | remove (id : NodeId) (node : Node β) (live : g.node? id = some node) :
      Edit g { g with
        slots := g.slots.set id.index none
        names := g.names.erase node.name
        connections := g.connections.filter fun c => !c.touches id
        isOutdated := true }
  | setParam (id : NodeId) (name : String) (value : Value) (node : Node β) (type : NodeType β)
      (live : g.node? id = some node) (known : g.type? node.type = some type)
      (registered : ∀ l, value.asLoop = some l → g.loops.has l)
      (accepted : type.check name value = none) :
      Edit g { g.modifyNode id fun n => { n with params := n.params.insert name value } with
        isOutdated := g.isOutdated || type.isPipelineParam name }
  | setDevice (id : NodeId) (device : Option Device) (live : (g.node? id).isSome) :
      Edit g { g.modifyNode id fun n => { n with device } with isOutdated := true }
  | setBehavior (id : NodeId) (behavior : β) (live : (g.node? id).isSome) :
      Edit g (g.modifyNode id fun n => { n with work := some (.custom behavior) })
  | setConfig (config : CompileConfig) : Edit g (g.setConfig config)
  | connect (c : Connection) (dependency : c.isDependency = true) (fits : g.Fits c)
      (free : ∀ d ∈ g.connections, ¬(d.sink = c.sink ∧ d.sinkPort = c.sinkPort)) :
      Edit g { g with connections := g.connections ++ [c], isOutdated := true }
  | connectLoops (c : Connection) (loops : c.carries? = some .loops) (fits : g.Fits c)
      (fresh : c ∉ g.connections) : Edit g { g with connections := g.connections ++ [c] }
  | disconnect (c : Connection) (present : c ∈ g.connections) :
      Edit g { g with
        connections := g.connections.filter fun d => d != c
        isOutdated := g.isOutdated || c.isDependency }
  | propagate : Edit g g.propagate
  | compile (plan : Plan) (compiles : g.planFor g.config = .ok plan) :
      Edit g { g with
        plan := some plan
        isOutdated := false
        carried := List.replicate plan.transfers.length .empty }
  | advanceClock (timer : Timer) : Edit g { g with timer }

inductive Change [Behavior β] (g : Graph β) : Graph β → Prop
  | edit {h : Graph β} (e : Edit g h) : Change g h
  | runFrame (limit : Nat) (plan : Plan) (override : Option Float) (watch : Stopwatch)
      (installed : g.plan = some plan) (current : g.isOutdated = false) :
      Change g (g.runFrame limit plan override watch).graph

/-- Commands lead to the graph from a new one. -/
inductive Reachable [Behavior β] : Graph β → Prop
  | new (timer : Timer) (config : CompileConfig) : Reachable { timer, config }
  | run {g : Graph β} {α : Type} (h : Reachable g) (c : Command β α) : Reachable (c.run g).graph

variable {g h : Graph β}

theorem Reachable.edits [Behavior β] (hg : Reachable g) (edits : List (Command β Unit)) :
    Reachable (edits.foldl (fun g c => (c.run g).graph) g) := by
  induction edits generalizing g with
  | nil => exact hg
  | cons c edits ih => exact ih (hg.run c)

def passType : NodeType Script where
  name := "Pass"
  inputs := [{ name := "in", type := .resource, isOptional := true }]
  outputs := [{ name := "out", type := .resource, lifetime := .transient, size := 64 }]

def chainNodes : Graph Script :=
  let typed := (Command.run ({} : Graph Script) (.registerType passType)).graph
  let first := (Command.run typed (.create ⟨3⟩ "first")).graph
  let second := (Command.run first (.create ⟨3⟩ "second")).graph
  let third := (Command.run second (.create ⟨3⟩ "third")).graph
  (Command.run third (.addConstant "enabled" true)).graph

/-- The passes in a chain that begins on one device and goes on to another. The constant gates the
last of them, which is not pinned. -/
def chain : Graph Script :=
  List.foldl (fun g c => (Command.run g c).graph) chainNodes
    [.setDevice ⟨0⟩ (some ⟨0⟩), .setDevice ⟨1⟩ (some ⟨1⟩),
      .connect ⟨⟨0⟩, .data 0, ⟨1⟩, .data 0⟩, .connect ⟨⟨1⟩, .data 0, ⟨2⟩, .data 0⟩,
      .connect ⟨⟨3⟩, .data 0, ⟨2⟩, .gate⟩]

theorem chain_reachable : Reachable chain := by
  have hnodes : Reachable chainNodes :=
    (((((Reachable.new _ _).run _).run _).run _).run _).run _
  exact hnodes.edits _

def relayNodes : Graph Script :=
  let looped := (Command.run ({} : Graph Script)
    (.registerLoop { name := "physics", timestep := 0.125, cap := 0.25 })).graph
  let typed := (Command.run looped (.registerType passType)).graph
  let source := (Command.run typed (.create ⟨3⟩ "source")).graph
  let solver := (Command.run source (.create ⟨3⟩ "solver")).graph
  let blur := (Command.run solver (.create ⟨3⟩ "blur")).graph
  (Command.run blur (.addBridge "rate" ⟨0⟩)).graph

/-- The passes in a chain of which the loop drives the second, compiled. -/
def relay : Graph Script :=
  let connected := List.foldl (fun g c => (Command.run g c).graph) relayNodes
    [.connect ⟨⟨0⟩, .data 0, ⟨1⟩, .data 0⟩, .connect ⟨⟨1⟩, .data 0, ⟨2⟩, .data 0⟩,
      .connect ⟨⟨3⟩, .loopOut, ⟨1⟩, .loopIn⟩]
  (Command.run connected .compile).graph

theorem relay_reachable : Reachable relay := by
  have hnodes : Reachable relayNodes :=
    ((((((Reachable.new _ _).run _).run _).run _).run _).run _).run _
  exact (hnodes.edits _).run _

/-- A frame of a quarter of a second is caught up with in one pass. -/
theorem relay_ok : ∃ report, (relay.execute (some 0.25)).answer = .ok report ∧
    report.catchUpPasses = 1 := by
  have hpasses : (relay.execute (some 0.25)).answer.toOption.map FrameReport.catchUpPasses =
      some 1 := by decide +kernel
  obtain ⟨report, hreport, hcount⟩ := Option.map_eq_some_iff.mp hpasses
  cases hanswer : (relay.execute (some 0.25)).answer with
  | error e =>
    rw [hanswer] at hreport
    cases hreport
  | ok found =>
    rw [hanswer] at hreport
    obtain rfl := Option.some.inj hreport
    exact ⟨found, rfl, hcount⟩

/-! ### Calls -/

/-- A call is refused and leaves the graph as it was, or it is accepted and leads on by edits. -/
def Atomic {ε α : Type} (g : Graph β) (call : Graph β × Except ε α) : Prop :=
  (∃ e, call = (g, .error e)) ∨ ∃ h a, Relation.ReflTransGen Edit g h ∧ call = (h, .ok a)

namespace Atomic

variable {ε α : Type} {call : Graph β × Except ε α}

theorem refuse (g : Graph β) (e : ε) : Atomic (α := α) g (g, .error e) := .inl ⟨e, rfl⟩

theorem accept (g : Graph β) (a : α) : Atomic (ε := ε) g (g, .ok a) := .inr ⟨g, a, .refl, rfl⟩

theorem edit (e : Edit g h) (a : α) : Atomic (ε := ε) g (h, .ok a) := .inr ⟨h, a, .single e, rfl⟩

theorem edits (hc : Atomic g call) : Relation.ReflTransGen Edit g call.1 := by
  obtain ⟨e, rfl⟩ | ⟨h, a, hedits, rfl⟩ := hc
  · exact .refl
  · exact hedits

theorem refused (hc : Atomic g call) {e : ε} (herror : call.2 = .error e) : call.1 = g := by
  obtain ⟨e, rfl⟩ | ⟨h, a, _, rfl⟩ := hc
  · rfl
  · cases herror

end Atomic

theorem registerLoop_cases (g : Graph β) (config : LoopConfig Float) :
    (∃ e, g.registerLoop config = (g, .error e)) ∨ ∃ loops id,
      g.loops.register config = .ok (loops, id) ∧
      g.registerLoop config = ({ g with loops }, .ok id) := by
  unfold registerLoop LoopTable.register
  obtain ⟨e, henroll⟩ | ⟨_, henroll⟩ := g.loops.enroll_cases config
  · exact .inl ⟨e, by rw [henroll]⟩
  · exact .inr ⟨_, _, by rw [henroll]; rfl, by rw [henroll]⟩

theorem registerLoop_eq_ok {g h : Graph β} {config : LoopConfig Float} {id : LoopId}
    (hc : g.registerLoop config = (h, .ok id)) :
    ∃ loops, g.loops.register config = .ok (loops, id) ∧ h = { g with loops } := by
  obtain ⟨e, hc'⟩ | ⟨loops, id', accepted, hc'⟩ := g.registerLoop_cases config
  · cases hc.symm.trans hc'
  · obtain ⟨rfl, hid⟩ := Prod.mk.inj (hc.symm.trans hc')
    obtain rfl := Except.ok.inj hid
    exact ⟨loops, accepted, rfl⟩

theorem registerLoop_atomic (g : Graph β) (config : LoopConfig Float) :
    Atomic g (g.registerLoop config) := by
  obtain ⟨e, hc⟩ | ⟨loops, id, accepted, hc⟩ := g.registerLoop_cases config
  · exact .inl ⟨e, hc⟩
  · exact hc ▸ .edit (.registerLoop config loops id accepted) id

theorem registerType_atomic (g : Graph β) (type : NodeType β) :
    Atomic g (g.registerType type) := by
  unfold registerType
  split
  · exact .refuse g _
  · next hname => exact .edit (.registerType type (by simpa using hname)) _

theorem create_cases (g : Graph β) (typeId : TypeId) (name : String) :
    (∃ e, g.create typeId name = (g, .error e)) ∨ ∃ type, g.type? typeId = some type ∧
      g.nodeNamed? name = none ∧
      (∀ max, type.maxInstances = some max → (g.instances typeId).length < max) ∧
      g.create typeId name =
        (g.place (.ofType ⟨g.slots.length⟩ name typeId type), .ok ⟨g.slots.length⟩) := by
  unfold create
  split
  · exact .inl ⟨_, rfl⟩
  · next type htype =>
    split
    · exact .inl ⟨_, rfl⟩
    · next hname =>
      split
      · exact .inl ⟨_, rfl⟩
      · next hroom =>
        refine .inr ⟨type, htype, by simpa using hname, fun max hmax => ?_, rfl⟩
        rw [hmax] at hroom
        simpa [Option.filter] using hroom

theorem create_atomic (g : Graph β) (typeId : TypeId) (name : String) :
    Atomic g (g.create typeId name) := by
  obtain ⟨e, hc⟩ | ⟨type, known, fresh, room, hc⟩ := g.create_cases typeId name
  · exact .inl ⟨e, hc⟩
  · exact hc ▸ .edit (.create typeId type name known fresh room) _

theorem setParam_cases (g : Graph β) (id : NodeId) (name : String) (value : Value) :
    (∃ e, g.setParam id name value = (g, .error e)) ∨ ∃ node type, g.node? id = some node ∧
      g.type? node.type = some type ∧ (∀ l, value.asLoop = some l → g.loops.has l = true) ∧
      type.check name value = none ∧
      g.setParam id name value =
        ({ g.modifyNode id fun n => { n with params := n.params.insert name value } with
          isOutdated := g.isOutdated || type.isPipelineParam name }, .ok ()) := by
  unfold setParam
  split
  · exact .inl ⟨_, rfl⟩
  · next hloop =>
    split
    · exact .inl ⟨_, rfl⟩
    · next node hnode =>
      split
      · exact .inl ⟨_, rfl⟩
      · next type htype =>
        split
        · exact .inl ⟨_, rfl⟩
        · next hcheck =>
          refine .inr ⟨node, type, hnode, htype, fun l hl => ?_, hcheck, rfl⟩
          rw [hl] at hloop
          simpa [Option.filter] using hloop

theorem setParam_atomic (g : Graph β) (id : NodeId) (name : String) (value : Value) :
    Atomic g (g.setParam id name value) := by
  obtain ⟨e, hc⟩ | ⟨node, type, live, known, registered, accepted, hc⟩ :=
    g.setParam_cases id name value
  · exact .inl ⟨e, hc⟩
  · exact hc ▸ .edit (.setParam id name value node type live known registered accepted) ()

/-- A node that stays when its parameter is refused was created by an edit. -/
theorem createWith_edits (g : Graph β) (type : TypeId) (name param : String) (value : Value) :
    Relation.ReflTransGen Edit g (g.createWith type name param value).1 := by
  have hcreate := (g.create_atomic type name).edits
  unfold createWith
  split
  · next created e heq =>
    rw [heq] at hcreate
    exact hcreate
  · next created id heq =>
    rw [heq] at hcreate
    have hparam := (created.setParam_atomic id param value).edits
    split
    all_goals
      next heq =>
        rw [heq] at hparam
        exact hcreate.trans hparam

theorem addBridge_edits (g : Graph β) (name : String) (loop : LoopId) :
    Relation.ReflTransGen Edit g (g.addBridge name loop).1 := by
  unfold addBridge
  split
  · exact g.createWith_edits _ _ _ _
  · exact .refl

theorem slots_set_none {id : NodeId} (hgone : g.node? id = none) :
    g.slots.set id.index none = g.slots := by
  refine List.ext_getElem? fun index => ?_
  rw [List.getElem?_set]
  split
  · next hindex =>
    subst hindex
    unfold node? at hgone
    cases hslot : g.slots[id.index]? with
    | none => simpa using hslot
    | some slot =>
      rw [hslot] at hgone
      obtain rfl : slot = none := hgone
      simp [(List.getElem?_eq_some_iff.mp hslot).1]
  · rfl

theorem remove_atomic (g : Graph β) (id : NodeId) : Atomic g (g.remove id) := by
  unfold remove
  dsimp only
  split
  · next hgone =>
    rw [slots_set_none hgone]
    exact .refuse g _
  · next node live => exact .edit (.remove id node live) ()

theorem setDevice_atomic (g : Graph β) (id : NodeId) (device : Option Device) :
    Atomic g (g.setDevice id device) := by
  unfold setDevice
  split
  · exact .refuse g _
  · next live => exact .edit (.setDevice id device (by simp [live])) ()

theorem setBehavior_atomic (g : Graph β) (id : NodeId) (behavior : β) :
    Atomic g (g.setBehavior id behavior) := by
  unfold setBehavior
  split
  · exact .refuse g _
  · next live => exact .edit (.setBehavior id behavior (by simp [live])) ()

/-- Where the input fits whatever output the connection comes from, joining is atomic. -/
theorem join_atomic {c : Connection} (hc : c.isDependency = true) {source : NodeType β}
    {output : Nat} {expected : PortType}
    (fits : (∃ port, source.outputs[output]? = some port ∧ port.type = expected) → g.Fits c) :
    Atomic g (g.join c source output expected) := by
  unfold join
  split
  · exact .refuse g _
  · next port hport =>
    split
    · exact .refuse g _
    · next htype =>
      split
      · exact .refuse g _
      · next hfree =>
        exact .edit (.connect c hc (fits ⟨port, hport, by simpa using htype⟩)
          (by simpa using hfree)) ()

theorem connect_atomic (g : Graph β) (c : Connection) : Atomic g (g.connect c) := by
  unfold connect
  split
  · exact .refuse g _
  · next carried hcarried =>
    split
    · exact .refuse g _
    · exact .refuse g _
    · next source sink hsource hsink =>
      have fits (hports : PortsFit source sink carried) : g.Fits c :=
        ⟨source, sink, carried, hsource, hsink, hcarried, hports⟩
      cases carried with
      | loops =>
        dsimp only
        split
        · exact .accept g ()
        · next fresh =>
          exact .edit (.connectLoops c hcarried (fits trivial) (by simpa using fresh)) ()
      | data output input =>
        dsimp only
        split
        · exact .refuse g _
        · next expected hexpected =>
          exact join_atomic (by simp [Connection.isDependency, hcarried])
            fun ⟨port, hport, htype⟩ => fits ⟨port, expected, hport, hexpected, htype⟩
      | gate output => exact join_atomic (by simp [Connection.isDependency, hcarried]) fits

theorem disconnect_cases (g : Graph β) (c : Connection) :
    c ∉ g.connections ∧ g.disconnect c = (g, false) ∨
      c ∈ g.connections ∧ g.disconnect c = ({ g with
        connections := g.connections.filter fun d => d != c
        isOutdated := g.isOutdated || c.isDependency }, true) := by
  by_cases hmem : c ∈ g.connections
  · have hremoved :
        ((g.connections.filter fun d => d != c).length != g.connections.length) = true :=
      bne_iff_ne.mpr fun hlength => by
        have hkept := List.length_filter_eq_length_iff.mp hlength c hmem
        simp at hkept
    exact .inr ⟨hmem, by simp only [disconnect, hremoved, Bool.true_and]⟩
  · have hkept : (g.connections.filter fun d => d != c) = g.connections :=
      List.filter_eq_self.mpr fun d hd => by
        simpa using fun heq : d = c => hmem (heq ▸ hd)
    exact .inl ⟨hmem, by simp [disconnect, hkept]⟩

theorem disconnect_edits (g : Graph β) (c : Connection) :
    Relation.ReflTransGen Edit g (g.disconnect c).1 := by
  obtain ⟨_, hc⟩ | ⟨present, hc⟩ := g.disconnect_cases c
  · rw [hc]
  · rw [hc]
    exact .single (.disconnect c present)

theorem compile_cases (g : Graph β) :
    (∃ e, g.compile = (g, .error e)) ∨ ∃ plan, g.planFor g.config = .ok plan ∧
      g.compile = ({ g with
        plan := some plan
        isOutdated := false
        carried := List.replicate plan.transfers.length .empty }, .ok plan) := by
  unfold compile
  split
  · exact .inl ⟨_, rfl⟩
  · next plan hplan => exact .inr ⟨plan, hplan, rfl⟩

theorem compile_atomic (g : Graph β) : Atomic g g.compile := by
  obtain ⟨e, hc⟩ | ⟨plan, compiles, hc⟩ := g.compile_cases
  · exact .inl ⟨e, hc⟩
  · exact hc ▸ .edit (.compile plan compiles) plan

/-! ### Commands -/

@[simp] theorem telling_graph {ε α : Type} (o : Outcome β ε α) (events : α → List Event) :
    (o.telling events).graph = o.graph := by
  unfold Outcome.telling
  split <;> rfl

variable [Behavior β]

theorem run_edits {α : Type} {c : Command β α} (hc : c.isEdit = true) :
    Relation.ReflTransGen Edit g (c.run g).graph := by
  cases c with
  | registerLoop config =>
    simp only [Command.run, telling_graph]
    exact (g.registerLoop_atomic config).edits
  | registerType type => exact (g.registerType_atomic type).edits
  | create type name => exact (g.create_atomic type name).edits
  | addBridge name loop => exact g.addBridge_edits name loop
  | addBoolOp name op => exact g.createWith_edits _ _ _ _
  | addConstant name value => exact g.createWith_edits _ _ _ _
  | remove node => exact (g.remove_atomic node).edits
  | setParam node name value => exact (g.setParam_atomic node name value).edits
  | setDevice node device => exact (g.setDevice_atomic node device).edits
  | setBehavior node behavior => exact (g.setBehavior_atomic node behavior).edits
  | connect connection => exact (g.connect_atomic connection).edits
  | disconnect connection => exact g.disconnect_edits connection
  | setConfig config => exact .single (.setConfig config)
  | propagate => exact .single .propagate
  | compile =>
    simp only [Command.run, telling_graph]
    exact g.compile_atomic.edits
  | advanceClock seconds =>
    simp only [Command.run]
    split
    · exact .single (.advanceClock _)
    · exact .refl
  | execute delta watch => cases hc

theorem execute_changes (override : Option Float) (watch : Stopwatch) (limit : Nat) :
    Relation.ReflTransGen Change g (g.execute override watch limit).graph := by
  unfold execute
  split
  · exact .refl
  · next plan hplan =>
    split
    · exact .refl
    · next hcurrent =>
      exact .single (.runFrame limit plan override watch hplan (Bool.eq_false_iff.mpr hcurrent))

/-- Every command leads to its graph by changes. -/
theorem run_changes {α : Type} (c : Command β α) :
    Relation.ReflTransGen Change g (c.run g).graph := by
  cases hc : c.isEdit with
  | true => exact Relation.ReflTransGen.mono (fun _ _ => .edit) _ _ (run_edits hc)
  | false =>
    cases c with
    | execute delta watch => exact execute_changes delta watch passLimit
    | _ => cases hc

/-- What new graphs have and every change keeps, all reachable graphs have. -/
theorem Reachable.invariant {P : Graph β → Prop}
    (hnew : ∀ (timer : Timer) (config : CompileConfig), P { timer, config })
    (hchange : ∀ g h : Graph β, P g → Change g h → P h) {g : Graph β} (hg : Reachable g) : P g := by
  induction hg with
  | new timer config => exact hnew timer config
  | run _ c ih =>
    refine Relation.ReflTransGen.rec ih (fun _ hc ih => ?_) (run_changes c)
    exact hchange _ _ ih hc

end Graph

end FrameGraph
