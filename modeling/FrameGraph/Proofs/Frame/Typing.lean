import FrameGraph.Proofs.Frame.Course
import FrameGraph.Proofs.Graph.Typing

/-! Values are of the types of their ports. Outputs hold what their ports may hold, each transfer
carries a value of its own type or none, and whatever a node reads in a frame, over an input or
its gate, is empty or of the type that it declares, also when the frame ends with a failure. -/

namespace FrameGraph

variable {β : Type}

namespace Progress

open FrameGraph.Graph

variable {g : Graph β} {plan : Plan} {pass : Pass} {p q : Progress β} {id : NodeId} {n : Node β}

/-- An invocation was given one value for each input of its node's type, empty or of the input's
type. -/
def InputsFill (g : Graph β) (c : Context) : Prop :=
  ∃ type, g.typeOf? c.node = some type ∧ Value.Fill c.inputs (type.inputs.map InputPort.type)

/-- A frame in progress holds only values of the right types. -/
structure IsTyped (g : Graph β) (plan : Plan) (p : Progress β) : Prop where
  shape : SameShape g p.graph
  filled : p.graph.Filled
  conveys : p.graph.Conveys plan

theorem IsTyped.of_graph (hp : p.IsTyped g plan) (hgraph : q.graph = p.graph) :
    q.IsTyped g plan := ⟨hgraph ▸ hp.shape, hgraph ▸ hp.filled, hgraph ▸ hp.conveys⟩

theorem IsTyped.beginPass (hp : p.IsTyped g plan) (loops : LoopTable Float) :
    (p.beginPass loops).IsTyped g plan :=
  ⟨hp.shape.trans (.timing p.graph loops p.graph.timer p.graph.frame), hp.filled, hp.conveys⟩

theorem IsTyped.read (hp : p.IsTyped g plan) {type : PortType} {source : Source}
    (h : g.Supplies plan type source) :
    p.graph.read source = .empty ∨ (p.graph.read source).type? = some type :=
  (hp.shape.supplies h).read hp.filled hp.conveys

theorem IsTyped.readGate (hp : p.IsTyped g plan) (hplan : g.TypedBy plan) {source : Source}
    (hsource : plan.gateSource? id = some source) :
    p.graph.read source = .empty ∨ ∃ b, p.graph.read source = .bool b := by
  refine (hp.read (hplan.gate id source hsource)).imp_right fun htype => ?_
  cases hv : p.graph.read source <;> rw [hv] at htype <;> cases htype
  exact ⟨_, rfl⟩

theorem IsTyped.context (hp : p.IsTyped g plan) (hplan : g.TypedBy plan)
    (hn : p.graph.node? id = some n) (pass : Pass) : InputsFill g (p.context plan pass id n) := by
  obtain ⟨type, htype, _⟩ := hp.filled n (mem_nodes_of_node? hn)
  have howner : g.typeOf? id = some type := by
    rw [← hp.shape.typeOf?]
    exact Option.bind_eq_some_iff.mpr ⟨n, hn, htype⟩
  refine ⟨type, howner, ?_⟩
  simp only [Progress.context, htype, Option.map_some, Option.getD_some]
  refine ⟨by simp, fun input v expected hv hexpected => ?_⟩
  obtain ⟨port, hport, rfl⟩ := Option.map_eq_some_iff.mp (List.getElem?_map.symm.trans hexpected)
  have hlt : input < type.inputs.length := (List.getElem?_eq_some_iff.mp hport).1
  rw [List.getElem?_map, List.getElem?_range hlt, Option.map_some] at hv
  obtain rfl := Option.some.inj hv
  cases hsource : plan.inputSource? id input with
  | none => exact .inl rfl
  | some source => exact hp.read (hplan.input id input source type port hsource howner hport)

theorem IsTyped.transfer (hp : p.IsTyped g plan) (hplan : g.TypedBy plan) (t : Nat) :
    (p.transfer plan t).IsTyped g plan := by
  refine ⟨hp.shape.trans ⟨rfl, rfl, rfl, rfl, rfl, rfl, rfl, List.length_set⟩, hp.filled, ?_⟩
  refine hp.conveys.set fun type htype => ?_
  obtain ⟨transfer, htransfer, rfl⟩ :=
    Option.map_eq_some_iff.mp (List.getElem?_map.symm.trans htype)
  rw [htransfer]
  exact hp.read (hplan.transfer transfer (List.mem_of_getElem? htransfer))

variable [Behavior β]

theorem IsTyped.invoke (hp : p.IsTyped g plan) (hn : p.graph.node? id = some n) (pass : Pass) :
    (p.invoke plan pass id n).1.IsTyped g plan := by
  have heffects := p.invoke_effects plan pass hn
  have hcarried : (p.invoke plan pass id n).1.graph.carried = p.graph.carried := by
    unfold Progress.invoke
    dsimp only
    split <;> rfl
  refine ⟨hp.shape.trans heffects.sameShape, hp.filled.effects heffects, ?_⟩
  rw [Conveys, hcarried]
  exact hp.conveys

/-- Every step keeps a frame typed, also one that fails. -/
theorem IsTyped.step (hp : p.IsTyped g plan) (hplan : g.TypedBy plan) (pass : Pass) (s : Step) :
    (p.step plan pass s).1.IsTyped g plan := by
  cases s with
  | transfer t => exact hp.transfer hplan t
  | node id =>
    simp only [Progress.step]
    split
    · split
      · exact hp.of_graph rfl
      · next n hn =>
        have hinvoke := hp.invoke hn pass
        split
        · next next heq =>
          rw [heq] at hinvoke
          exact hinvoke.of_graph rfl
        · next next error heq =>
          rw [heq] at hinvoke
          exact hinvoke
    · exact hp.of_graph (skip_graph p pass id)

theorem IsTyped.walk (hp : p.IsTyped g plan) (hplan : g.TypedBy plan) (pass : Pass)
    (steps : List Step) : (p.walk plan pass steps).1.IsTyped g plan := by
  induction steps generalizing p with
  | nil => exact hp
  | cons s rest ih =>
    have hstep := hp.step hplan pass s
    simp only [Progress.walk]
    split
    · next next heq =>
      rw [heq] at hstep
      exact ih hstep
    · next next failure heq =>
      rw [heq] at hstep
      exact hstep.of_graph (abandon_graph _ _ _)

end Progress

namespace Graph

variable [Behavior β] {g h : Graph β} {plan : Plan} {override : Option Float} {watch : Stopwatch}

theorem opening_isTyped (hfilled : g.Filled) (hconveys : g.Conveys plan) :
    (g.opening override).IsTyped g plan := by
  have heffects := g.advance_effects override
  refine ⟨heffects.sameShape, hfilled.effects heffects, ?_⟩
  have hcarried : (g.opening override).graph.carried = g.carried := by cases override <;> rfl
  rw [Conveys, hcarried]
  exact hconveys

theorem Begins.isTyped {pass : Pass} {start : Progress β}
    (hbegins : g.Begins plan override pass start) (hplan : g.TypedBy plan) (hfilled : g.Filled)
    (hconveys : g.Conveys plan) : start.IsTyped g plan := by
  refine hbegins.invariant (opening_isTyped hfilled hconveys) (fun pass p last hp hwalk => ?_)
    fun p loops hp _ => hp.beginPass loops
  have hlast := hp.walk hplan pass plan.order
  rwa [hwalk] at hlast

theorem Reachable.conveys (hg : Reachable g) (hinstalled : g.plan = some plan) :
    g.Conveys plan := by
  refine (hg.invariant (P := fun g => g.Integral ∧ g.PlanIsFresh ∧ g.Filled ∧
    ∀ plan, g.plan = some plan → g.Conveys plan) (fun timer config => ?_)
    fun g h ⟨hi, hfresh, hfilled, hconveys⟩ hc => ?_).2.2.2 plan hinstalled
  · exact ⟨.new timer config, nofun, nofun, nofun⟩
  · refine ⟨hi.change hc, hfresh.change hi hc, ?_, ?_⟩
    · cases hc with
      | edit e => exact hfilled.edit e
      | runFrame limit plan override watch =>
        exact hfilled.effects (g.runFrame_effects limit plan override watch)
    · intro plan hplan
      cases hc with
      | edit e =>
        cases e with
        | compile compiled =>
          obtain rfl := Option.some.inj hplan
          have hempty := Value.Fill.empty (compiled.transfers.map Transfer.type)
          rwa [List.length_map] at hempty
        | _ => exact hconveys plan hplan
      | runFrame limit run override watch installed current =>
        obtain ⟨pass, start, last, failure, hbegins, hwalk, hgraph, _⟩ :=
          g.runFrame_last limit run override watch
        rw [(g.runFrame_sameShape limit run override watch).plan, installed] at hplan
        obtain rfl := Option.some.inj hplan
        have htyped := hi.typedBy (hfresh run installed current).1
        have hlast := (hbegins.isTyped htyped hfilled (hconveys run installed)).walk htyped pass
          run.order
        rw [hwalk] at hlast
        rw [hgraph]
        exact hlast.conveys

/-- Values are of the types of their ports, in every reachable graph and throughout each of its
frames, however the frame ends: the outputs of nodes and the values that transfers carry, the
inputs of every invocation, as it was made (`runFrame_makes`), and what gates read at the turns of
their nodes. -/
theorem Reachable.values_typed (hg : Reachable g) :
    (∀ n ∈ g.nodes, ∃ type, g.type? n.type = some type ∧
      Value.Fill n.outputs (type.outputs.map OutputPort.type)) ∧
    (∀ plan, g.plan = some plan → Value.Fill g.carried (plan.transfers.map Transfer.type)) ∧
    ∀ override watch limit,
      (∀ c, .invoked c ∈ (g.execute override watch limit).journal.toList →
        ∃ type, g.typeOf? c.node = some type ∧
          Value.Fill c.inputs (type.inputs.map InputPort.type)) ∧
      ∀ plan pass start before id after turn source, g.plan = some plan → g.isOutdated = false →
        g.Begins plan override pass start → plan.order = before ++ .node id :: after →
        start.walk plan pass before = (turn, none) → plan.gateSource? id = some source →
        turn.graph.read source = .empty ∨ ∃ b, turn.graph.read source = .bool b := by
  refine ⟨hg.filled, fun plan hplan => hg.conveys hplan, fun override watch limit => ⟨?_, ?_⟩⟩
  · intro c hc
    unfold execute at hc
    split at hc
    · simp at hc
    · next plan hplan =>
      split at hc
      · simp at hc
      · next hcurrent =>
        obtain ⟨pass, start, hbegins, before, after, turn, n, _, hwalk, hhands⟩ :=
          runFrame_makes hc
        have hfresh := hg.planIsFresh plan hplan (Bool.eq_false_iff.mpr hcurrent)
        have htyped := hg.integral.typedBy hfresh.1
        have hturn := (hbegins.isTyped htyped hg.filled (hg.conveys hplan)).walk htyped pass before
        rw [hwalk] at hturn
        exact hhands.context ▸ hturn.context htyped hhands.live pass
  · intro plan pass start before id after turn source hplan hcurrent hbegins _ hwalk hsource
    have htyped := hg.integral.typedBy (hg.planIsFresh plan hplan hcurrent).1
    have hturn := (hbegins.isTyped htyped hg.filled (hg.conveys hplan)).walk htyped pass before
    rw [hwalk] at hturn
    exact hturn.readGate htyped hsource

def invokes (id : NodeId) : Event → Bool
  | .invoked c => c.node == id
  | _ => false

/-- The end of the chain is invoked with a resource or nothing, which a transfer has carried, after
its gate has read a boolean or nothing. -/
theorem chainCompiled_values : ∃ plan c turn, chainCompiled.plan = some plan ∧
    plan.transfers.map Transfer.type = [.resource] ∧ Value.Fill chainCompiled.carried [.resource] ∧
    .invoked c ∈ (chainCompiled.execute (some 0.25)).journal.toList ∧ c.node = ⟨2⟩ ∧
    Value.Fill c.inputs [.resource] ∧
    (chainCompiled.opening (some 0.25)).walk plan .main (plan.before (.node ⟨2⟩)) = (turn, none) ∧
    (turn.graph.read (.output ⟨3⟩ 0) = .empty ∨
      ∃ b, turn.graph.read (.output ⟨3⟩ 0) = .bool b) := by
  have hreachable : Reachable chainCompiled := chain_reachable.run .compile
  have hcurrent : chainCompiled.isOutdated = false := by decide +kernel
  obtain ⟨_, hcarried, hframes⟩ := hreachable.values_typed
  obtain ⟨hinvoked, hgates⟩ := hframes (some 0.25) .still passLimit
  have hlaid : (chainCompiled.plan.any fun plan =>
      plan.transfers.map Transfer.type == [.resource] &&
      plan.gateSource? ⟨2⟩ == some (.output ⟨3⟩ 0) && plan.order.contains (.node ⟨2⟩) &&
      ((chainCompiled.opening (some 0.25)).walk plan .main (plan.before (.node ⟨2⟩))).2.isNone) =
      true := by decide +kernel
  obtain ⟨plan, hplan, hlaid⟩ := (Option.any_eq_true _ _).mp hlaid
  simp only [Bool.and_eq_true, beq_iff_eq, List.contains_iff_mem, Option.isNone_iff_eq_none]
    at hlaid
  obtain ⟨⟨⟨htypes, hgate⟩, hstep⟩, hwalk⟩ := hlaid
  have hran : (chainCompiled.execute (some 0.25)).journal.toList.any (invokes ⟨2⟩) = true := by
    decide +kernel
  obtain ⟨event, hevent, hnode⟩ := List.any_eq_true.mp hran
  cases event with
  | invoked c =>
    have hnode : c.node = ⟨2⟩ := beq_iff_eq.mp hnode
    obtain ⟨type, htype, hfill⟩ := hinvoked c hevent
    have hinputs : (chainCompiled.typeOf? ⟨2⟩).map (fun type => type.inputs.map InputPort.type) =
        some [.resource] := by decide +kernel
    rw [hnode] at htype
    rw [htype] at hinputs
    obtain ⟨after, horder⟩ := plan.order_eq_before hstep
    generalize hturn : (chainCompiled.opening (some 0.25)).walk plan .main
      (plan.before (.node ⟨2⟩)) = reached at hwalk
    obtain ⟨turn, failure⟩ := reached
    obtain rfl : failure = none := hwalk
    exact ⟨plan, c, turn, hplan, htypes, htypes ▸ hcarried plan hplan, hevent, hnode,
      Option.some.inj hinputs ▸ hfill, hturn,
      hgates plan .main _ _ _ after _ _ hplan hcurrent .main horder hturn hgate⟩
  | _ => cases hnode

end Graph

end FrameGraph
