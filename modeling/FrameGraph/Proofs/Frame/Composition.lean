import FrameGraph.Proofs.Frame.Agreement
import FrameGraph.Proofs.Frame.Course
import FrameGraph.Proofs.Graph.Signals

/-! Gates compose. Built-in nodes run in every pass, each after its producers, on the values that
these hold in the same pass, directly or through transfers. So after its turn each shows what
the recursion over the connections gives it, whatever the plan, and a gate that it feeds opens
for exactly the passes in which that is true. -/

namespace FrameGraph

variable {β : Type}

/-! ### Built-in work -/

theorem Activity.put_inj {next : β} {a b : Bool}
    (h : Activity.put next 0 (.bool a) = .put next 0 (.bool b)) : a = b :=
  Value.bool.inj (Activity.write.inj h).2.1

namespace Work

theorem actBridge_put {c : Context} {b : Bool}
    (h : actBridge (β := β) c = .put bridge 0 (.bool b)) :
    ∃ l, (c.params.get? loopParam).bind Value.asLoop = some l ∧ b = c.flag l := by
  unfold actBridge at h
  split at h
  · cases h
  · next l hl => exact ⟨l, hl, (Activity.put_inj h).symm⟩

theorem actBoolOp_put {c : Context} {b : Bool}
    (h : actBoolOp (β := β) c = .put boolOp 0 (.bool b)) :
    ∃ op, ((c.params.get? operationParam).bind Value.asText).bind BoolOp.ofName? = some op ∧
      b = op.apply ((c.input 0).asBool.getD false) ((c.input 1).asBool.getD false) := by
  unfold actBoolOp at h
  dsimp only at h
  split at h
  · cases h
  · next op hop =>
    refine ⟨op, ?_, (Activity.put_inj h).symm⟩
    cases htext : (c.params.get? operationParam).bind Value.asText with
    | none =>
      rw [htext] at hop
      have hempty : BoolOp.ofName? "" = none := by decide
      exact nomatch hempty.symm.trans hop
    | some text =>
      rw [htext] at hop
      exact hop

theorem actConstant_put {c : Context} {b : Bool}
    (h : actConstant (β := β) c = .put constant 0 (.bool b)) :
    b = ((c.params.get? valueParam).bind Value.asBool).getD false :=
  (Activity.put_inj h).symm

end Work

namespace Progress

open FrameGraph.Graph

variable [Behavior β] {g : Graph β} {plan : Plan} {pass : Pass} {p r : Progress β}
  {steps : List Step} {id : NodeId} {n : Node β}

/-- A pass over a compiled graph has taken its first steps. -/
structure Midway (g : Graph β) (plan : Plan) (pass : Pass) (steps : List Step)
    (p r : Progress β) : Prop where
  reachable : Reachable g
  effects : Effects g p.graph
  runBy : g.RunBy plan
  first : ∃ after, plan.order = steps ++ after
  walked : p.walk plan pass steps = (r, none)

namespace Midway

theorem shape (h : Midway g plan pass steps p r) : SameShape g r.graph :=
  h.effects.sameShape.trans (walk_sameShape h.walked)

theorem settles (h : Midway g plan pass steps p r) : Settles plan pass steps p r := by
  obtain ⟨after, horder⟩ := h.first
  have hlinear := h.runBy.isLinear
  rw [horder] at hlinear
  exact walk_settles hlinear.of_append.1 h.walked

theorem isBuiltIn_iff (h : Midway g plan pass steps p r) (id : NodeId) :
    r.graph.IsBuiltIn id ↔ g.IsBuiltIn id :=
  Effects.isBuiltIn_iff (h.effects.trans (effects_of_walk h.walked)) id

theorem split (h : Midway g plan pass steps p r) {s : Step} (hs : s ∈ steps) :
    ∃ before after, plan.order = before ++ s :: after ∧ ∀ a ∈ before, a ∈ steps := by
  obtain ⟨after, horder⟩ := h.first
  obtain ⟨before, rest, rfl⟩ := List.append_of_mem hs
  exact ⟨before, rest ++ after, by rw [horder, List.append_assoc, List.cons_append],
    fun a ha => List.mem_append_left _ ha⟩

theorem producer_mem (h : Midway g plan pass steps p r) (hid : .node id ∈ steps) {c : Connection}
    (hc : c ∈ g.dependencies) (hsink : c.sink = id) : .node c.source ∈ steps := by
  obtain ⟨before, after, horder, hbefore⟩ := h.split hid
  exact hbefore _ (h.runBy.producers before id after horder c hc hsink)

theorem depends_mem (h : Midway g plan pass steps p r) (hid : .node id ∈ steps) {a : Step}
    (ha : plan.DependsOn (.node id) a) : a ∈ steps := by
  obtain ⟨before, after, horder, hbefore⟩ := h.split hid
  exact hbefore _ (h.runBy.mem_before before _ after horder a ha)

theorem type?_eq (h : Midway g plan pass steps p r) (type : TypeId) :
    p.graph.type? type = r.graph.type? type := (h.settles.same.type? type).symm

/-- A built-in node did its work at its turn: it has written what its work makes of the values that
its inputs are connected to, as they are now. -/
theorem builtIn_acted (h : Midway g plan pass steps p r) (hid : .node id ∈ steps)
    (hbuiltIn : r.graph.IsBuiltIn id) : ∃ n work b, r.graph.node? id = some n ∧ n.IsBuiltIn ∧
      n.work = some work ∧ n.outputs = [.bool b] ∧
      Behavior.act work (r.context plan pass id n) = .put work 0 (.bool b) ∧
      (r.context plan pass id n).inputs =
        r.graph.supplied id (((r.graph.type? n.type).map fun t => t.inputs.length).getD 0) := by
  obtain ⟨n, hn, hnode⟩ := ((effects_of_walk h.walked).isBuiltIn_iff id).mp hbuiltIn
  obtain ⟨hdone, hleft⟩ := h.settles.at_mem _ hid n hn
  have hshows := h.settles.shows (h.runBy.of_sameShape h.effects.sameShape)
    (fun a ha => h.depends_mem hid ha) hn
  obtain ⟨type, port, htype, hcombinational, houtputs, hport⟩ :=
    h.reachable.builtIn_type h.shape hnode
  have hruns : r.graph.runs plan pass id = true := by
    have hflag : p.graph.isCombinational id = true := by
      simp only [isCombinational, typeOf?, hn, Option.bind_some, h.type?_eq, htype, Option.any_some,
        hcombinational]
    rw [runs_eq, h.settles.same.isCombinational, hflag, Bool.true_or]
  have hlength : n.outputs.length = [port].length := by
    have hfilled := h.reachable.filled.effects h.effects
    rw [hfilled.outputs hn (h.type?_eq n.type ▸ htype), houtputs]
  obtain ⟨work, hwork, hcustom⟩ : ∃ work, n.work = some work ∧
      ∀ behavior, work ≠ .custom behavior := by
    rcases hnode with ⟨_, hwork⟩ | ⟨_, hwork⟩ | ⟨_, hwork⟩
    all_goals
      refine ⟨_, hwork, fun behavior hcustom => ?_⟩
      cases hcustom
  rw [turned, if_pos hruns] at hdone hleft
  simp only [Node.act, hwork, htype, houtputs] at hdone hleft
  rcases Work.act_builtIn hcustom (r.context plan pass id n) with ⟨e, hact⟩ | ⟨b, hact⟩
  · rw [hact] at hdone
    cases hdone
  · rw [hact, Work.run_put hport work b hlength] at hleft
    have hsame : n.IsBuiltIn ↔ ({ n with work := some work, outputs := [.bool b] } :
        Node β).IsBuiltIn := by simp only [Node.IsBuiltIn, hwork]
    exact ⟨_, work, b, hleft, hsame.mp hnode, rfl, rfl, hact, hshows.inputs⟩

/-- A built-in node holds its signal from its turn on. -/
theorem holdsSignal (h : Midway g plan pass steps p r) (hid : .node id ∈ steps)
    (hbuiltIn : r.graph.IsBuiltIn id) : r.graph.HoldsSignal id := by
  obtain ⟨before, after, horder, _⟩ := h.split hid
  -- from the producers of a node to the node
  refine h.runBy.induct (motive := fun id => .node id ∈ steps → r.graph.IsBuiltIn id →
    r.graph.HoldsSignal id) (fun id _ ih hid hbuiltIn => ?_)
    (horder ▸ List.mem_append_right _ List.mem_cons_self) hid hbuiltIn
  obtain ⟨n, work, b, hn, hnode, hwork, houtputs, hact, hinputs⟩ := h.builtIn_acted hid hbuiltIn
  have htype (type : NodeType β) (hmem : NodeType.builtIn[n.type.index]? = some type) :
      r.graph.type? n.type = some type := h.reachable.type?_running h.shape hmem
  have hread : r.graph.read (.output id 0) = .bool b := by simp [Graph.read, hn, houtputs]
  refine ⟨b, hread, fun v => ?_⟩
  rcases hnode with ⟨heq, hown⟩ | ⟨heq, hown⟩ | ⟨heq, hown⟩
  · obtain rfl := Option.some.inj (hwork.symm.trans hown)
    obtain ⟨l, hl, rfl⟩ := Work.actBridge_put hact
    have hloops : (r.context plan pass id n).loops = some r.graph.loops := by
      simp only [context, htype .bridge (by rw [heq]; rfl)]
      rfl
    rw [signals_bridge hn heq hown hl, Context.flag, hloops, Option.any_some]
  · obtain rfl := Option.some.inj (hwork.symm.trans hown)
    obtain ⟨op, hop, rfl⟩ := Work.actBoolOp_put hact
    rw [htype .boolOp (by rw [heq]; rfl)] at hinputs
    have hinput {input : Nat} (hlt : input < 2) : (r.context plan pass id n).input input =
        ((r.graph.feeder? id (.data input)).map r.graph.read).getD .empty := by
      rw [Context.input, hinputs]
      exact r.graph.getD_supplied id hlt
    have hsignals (input : Nat) := h.reachable.signals_feeder h.shape id (.data input)
      fun c hc hsink => ih c hc hsink (h.producer_mem hid hc hsink)
    rw [signals_boolOp hn heq hown hop, hinput (by decide), hinput (by decide)]
    simp only [hsignals]
    constructor
    · rintro ⟨_, _, rfl, rfl, rfl⟩
      rfl
    · rintro rfl
      exact ⟨_, _, rfl, rfl, rfl⟩
  · obtain rfl := Option.some.inj (hwork.symm.trans hown)
    have haccepted := h.reachable.accepted.effects (h.effects.trans (effects_of_walk h.walked))
    obtain ⟨value, hvalue⟩ := haccepted.constant_value (mem_nodes_of_node? hn)
      (htype .constant (by rw [heq]; rfl))
    obtain rfl := Work.actConstant_put hact
    have hparam : (r.context plan pass id n).params = n.params := rfl
    rw [signals_constant hn heq hown hvalue, hparam, hvalue]
    rfl

theorem runs_gated (h : Midway g plan pass steps p r) (hsequential : g.isCombinational id = false)
    {source : Source} (hgate : g.feeder? id .gate = some source) :
    r.graph.runs plan pass id = r.graph.readGate source := by
  rw [runs_eq, h.shape.isCombinational, hsequential, Bool.false_or, h.runBy.gate, hgate]

end Midway

end Progress

namespace Graph

variable [Behavior β] {g : Graph β} {plan : Plan} {override : Option Float} {pass : Pass}
  {start last : Progress β}

/-- In every pass of a frame of a compiled graph, main or catch-up, every built-in node holds from
its turn on the signal that the recursion over the connections gives it, and a gated node that is
not combinational runs exactly when the signal of the built-in node at its gate is true. -/
theorem Reachable.gates_compose (hg : Reachable g) (hplan : g.plan = some plan)
    (hcurrent : g.isOutdated = false) (hbegins : g.Begins plan override pass start)
    (completed : start.walk plan pass plan.order = (last, none)) :
    (∀ before after state, plan.order = before ++ after →
      start.walk plan pass before = (state, none) → state.graph.loops = start.graph.loops ∧
        ∀ id, .node id ∈ before → g.IsBuiltIn id → state.graph.HoldsSignal id) ∧
    (∀ id, g.IsBuiltIn id → last.graph.HoldsSignal id) ∧
    ∃ ran, last.trace = start.trace ++ ran ∧ ∀ id source output, (g.node? id).isSome →
      g.isCombinational id = false → g.feeder? id .gate = some (.output source output) →
      g.IsBuiltIn source →
      (.node id ∈ ran ↔ last.graph.Signals (some (.output source output)) true) := by
  have hrun := hg.runBy hplan hcurrent
  have hlast : Progress.Midway g plan pass plan.order start last :=
    ⟨hg, hbegins.effects, hrun, ⟨[], (List.append_nil _).symm⟩, completed⟩
  have hholds (id : NodeId) (hbuiltIn : last.graph.IsBuiltIn id) : last.graph.HoldsSignal id := by
    obtain ⟨n, hn, _⟩ := (hlast.isBuiltIn_iff id).mp hbuiltIn
    exact hlast.holdsSignal (hrun.node_mem.mpr (by rw [hn]; rfl)) hbuiltIn
  refine ⟨fun before after state horder hwalk => ?_,
    fun id hbuiltIn => hholds id ((hlast.isBuiltIn_iff id).mpr hbuiltIn), _,
    Progress.walk_ran hrun.isLinear completed,
    fun id source output hlive hsequential hgate hbuiltIn => ?_⟩
  · have hstate : Progress.Midway g plan pass before start state :=
      ⟨hg, hbegins.effects, hrun, ⟨after, horder⟩, hwalk⟩
    exact ⟨hstate.settles.same.loops, fun id hid hbuiltIn =>
      hstate.holdsSignal hid ((hstate.isBuiltIn_iff id).mpr hbuiltIn)⟩
  · have hfeeder : last.graph.feeder? id .gate = some (.output source output) := by
      rw [feeder?, dependencies, hlast.shape.connections]
      exact hgate
    have hsignals := hg.signals_feeder hlast.shape id .gate
      (fun c _ _ hbuiltIn => hholds c.source hbuiltIn) true
    rw [hfeeder] at hsignals
    rw [hsignals, List.mem_filter, hrun.node_mem]
    simp only [hlast.shape.node?_isSome, hlive, hlast.runs_gated hsequential hgate, readGate,
      Bool.true_and, true_and]
    exact ⟨Eq.symm, Eq.symm⟩

/-- A pass that a bridge and a constant gate together, over a composition on another device. -/
def switch : Graph Script :=
  let looped := (Command.run ({} : Graph Script)
    (.registerLoop { name := "physics", timestep := 0.125, cap := 0.25 })).graph
  let typed := (Command.run looped (.registerType passType)).graph
  let target := (Command.run typed (.create ⟨3⟩ "target")).graph
  let bridge := (Command.run target (.addBridge "rate" ⟨0⟩)).graph
  let constant := (Command.run bridge (.addConstant "enabled" true)).graph
  let both := (Command.run constant (.addBoolOp "both" .and)).graph
  let connected := List.foldl (fun g c => (Command.run g c).graph) both
    [.setDevice ⟨3⟩ (some ⟨1⟩), .connect ⟨⟨1⟩, .data 0, ⟨3⟩, .data 0⟩,
      .connect ⟨⟨2⟩, .data 0, ⟨3⟩, .data 1⟩, .connect ⟨⟨3⟩, .data 0, ⟨0⟩, .gate⟩]
  (Command.run connected .compile).graph

theorem switch_reachable : Reachable switch := by
  have hnodes := ((((((Reachable.new (β := Script) (.ofClock {}) {}).run
    (.registerLoop { name := "physics", timestep := 0.125, cap := 0.25 })).run
    (.registerType passType)).run (.create ⟨3⟩ "target")).run (.addBridge "rate" ⟨0⟩)).run
    (.addConstant "enabled" true)).run (.addBoolOp "both" .and)
  exact (hnodes.edits _).run .compile

def combines (n : Node Script) : Bool :=
  n.type == .boolOp && match n.work with
    | some .boolOp => true
    | _ => false

/-- In the main pass of its first frame the loop triggers, and the pass behind the gate runs. -/
theorem switch_composes : ∃ plan last ran, switch.plan = some plan ∧ plan.transfers.length = 2 ∧
    (switch.opening (some 0.125)).walk plan .main plan.order = (last, none) ∧
    last.trace = (switch.opening (some 0.125)).trace ++ ran ∧
    last.graph.HoldsSignal ⟨3⟩ ∧ last.graph.Signals (some (.output ⟨3⟩ 0)) true ∧
    .node ⟨0⟩ ∈ ran := by
  have hcurrent : switch.isOutdated = false := by decide +kernel
  have hran : (switch.plan.any fun plan =>
      let reached := (switch.opening (some 0.125)).walk plan .main plan.order
      plan.transfers.length == 2 && reached.2.isNone &&
        reached.1.graph.read (.output ⟨3⟩ 0) == .bool true) = true := by decide +kernel
  have hboth : ((switch.node? ⟨3⟩).any combines) = true := by decide +kernel
  have hbuiltIn : switch.IsBuiltIn ⟨3⟩ := by
    obtain ⟨n, hn, hown⟩ := (Option.any_eq_true _ _).mp hboth
    rw [combines, Bool.and_eq_true, beq_iff_eq] at hown
    obtain ⟨htype, hwork⟩ := hown
    split at hwork
    · next hown => exact ⟨n, hn, .inr (.inl ⟨htype, hown⟩)⟩
    · cases hwork
  have hlive : (switch.node? ⟨0⟩).isSome = true := by decide +kernel
  have hsequential : switch.isCombinational ⟨0⟩ = false := by decide +kernel
  have hgate : switch.feeder? ⟨0⟩ .gate = some (.output ⟨3⟩ 0) := by decide +kernel
  obtain ⟨plan, hplan, hran⟩ := (Option.any_eq_true _ _).mp hran
  generalize hwalk : (switch.opening (some 0.125)).walk plan .main plan.order = reached at hran
  obtain ⟨last, failure⟩ := reached
  simp only [Bool.and_eq_true, beq_iff_eq, Option.isNone_iff_eq_none] at hran
  obtain ⟨⟨htransfers, rfl⟩, hread⟩ := hran
  obtain ⟨_, hholds, ran, htrace, hruns⟩ :=
    switch_reachable.gates_compose hplan hcurrent .main hwalk
  have hsignal : last.graph.Signals (some (.output ⟨3⟩ 0)) true := by
    obtain ⟨b, hb, hsignals⟩ := hholds ⟨3⟩ hbuiltIn
    exact (hsignals true).mpr (Value.bool.inj (hread.symm.trans hb))
  exact ⟨plan, last, ran, hplan, htransfers, hwalk, htrace, hholds ⟨3⟩ hbuiltIn, hsignal,
    (hruns ⟨0⟩ ⟨3⟩ 0 hlive hsequential hgate hbuiltIn).mpr hsignal⟩

end Graph

end FrameGraph
