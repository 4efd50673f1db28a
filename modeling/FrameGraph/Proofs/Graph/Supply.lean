import FrameGraph.Proofs.Graph.Order
import FrameGraph.Proofs.Plan.Linear

/-! What nodes are supplied with. The connection into a data input or a gate names an output,
whatever the plan: under every plan the gate reads that output and the input the same output or
a transfer of it. So plans for one graph differ in the order of the steps and in the
transfers, and in nothing else that a node can see. -/

namespace FrameGraph

/-- A source holds an output, or is a transfer of it. -/
def Plan.Brings (p : Plan) (source output : Source) : Prop :=
  source = output ∨ ∃ t transfer, source = .transfer t ∧ p.transfers[t]? = some transfer ∧
    output = .output transfer.source transfer.output

theorem Connection.carries_data_iff {c : Connection} {output input : Nat} :
    c.carries? = some (.data output input) ↔
      c.sourcePort = .data output ∧ c.sinkPort = .data input := by
  refine ⟨ports_of_data, fun ⟨hsource, hsink⟩ => ?_⟩
  rw [carries?, hsource, hsink]

theorem Connection.carries_gate_iff {c : Connection} {output : Nat} :
    c.carries? = some (.gate output) ↔ c.sourcePort = .data output ∧ c.sinkPort = .gate := by
  refine ⟨ports_of_gate, fun ⟨hsource, hsink⟩ => ?_⟩
  rw [carries?, hsource, hsink]

namespace Graph

variable {β : Type} {g h : Graph β}

/-- The output that is connected to a data input or a gate. -/
def feeder? (g : Graph β) (id : NodeId) (port : Port) : Option Source :=
  (g.dependencies.find? fun c => c.sink == id && c.sinkPort == port).bind fun c =>
    match c.sourcePort with
    | .data output => some (.output c.source output)
    | _ => none

theorem Integral.feeder?_eq_some (hg : g.Integral) {id : NodeId} {port : Port} {source : Source} :
    g.feeder? id port = some source ↔ ∃ c ∈ g.dependencies, ∃ output, c.sink = id ∧
      c.sinkPort = port ∧ c.sourcePort = .data output ∧ source = .output c.source output := by
  have hsingle : g.dependencies.Pairwise fun c d =>
      ¬((c.sink == id && c.sinkPort == port) = true ∧
        (d.sink == id && d.sinkPort == port) = true) := by
    refine hg.single_producer.imp fun hne h => hne ?_
    simp only [Bool.and_eq_true, beq_iff_eq] at h
    exact ⟨h.1.1.trans h.2.1.symm, h.1.2.trans h.2.2.symm⟩
  simp only [feeder?, Option.bind_eq_some_iff, Schedule.find?_eq_some_of_single hsingle,
    Bool.and_eq_true, beq_iff_eq]
  refine exists_congr fun c => ?_
  cases c.sourcePort <;> simp [and_assoc, eq_comm]

theorem Integral.feeder_of_data (hg : g.Integral) {c : Connection} (hc : c ∈ g.connections)
    {output input : Nat} (carries : c.carries? = some (.data output input)) :
    g.feeder? c.sink (.data input) = some (.output c.source output) := by
  obtain ⟨hsource, hsink⟩ := Connection.carries_data_iff.mp carries
  have hdep : c.isDependency = true := Connection.isDependency_iff.mpr (.inl ⟨_, _, carries⟩)
  exact hg.feeder?_eq_some.mpr ⟨c, List.mem_filter.mpr ⟨hc, hdep⟩, output, rfl, hsink, hsource, rfl⟩

/-- The output that is connected to an input belongs to a producer. -/
theorem feeder?_source {id : NodeId} {port : Port} {source : Source}
    (h : g.feeder? id port = some source) :
    ∃ c ∈ g.dependencies, c.sink = id ∧ ∃ output, source = .output c.source output := by
  obtain ⟨c, hfind, hsource⟩ := Option.bind_eq_some_iff.mp h
  have hmatch := List.find?_some hfind
  rw [Bool.and_eq_true, beq_iff_eq] at hmatch
  refine ⟨c, List.mem_of_find?_eq_some hfind, hmatch.1, ?_⟩
  split at hsource
  · next output _ => exact ⟨output, (Option.some.inj hsource).symm⟩
  · cases hsource

/-- A plan runs a graph: it takes every live node and every transfer once, each after what it
reads, and inputs and gates read what is connected to them. -/
structure RunBy (g : Graph β) (p : Plan) : Prop where
  nodup : p.order.Nodup
  mem_order : ∀ step, step ∈ p.order ↔
    (∃ id, step = .node id ∧ (g.node? id).isSome) ∨ ∃ t < p.transfers.length, step = .transfer t
  mem_before : ∀ before s after, p.order = before ++ s :: after →
    ∀ a, p.DependsOn s a → a ∈ before
  /-- Nodes come after their producers, also where a transfer is between them. -/
  producers : ∀ before id after, p.order = before ++ .node id :: after →
    ∀ c ∈ g.dependencies, c.sink = id → .node c.source ∈ before
  input : ∀ id input,
    Option.Rel p.Brings (p.inputSource? id input) (g.feeder? id (.data input))
  gate : ∀ id, p.gateSource? id = g.feeder? id .gate
  carried : g.carried.length = p.transfers.length

theorem RunBy.isLinear {p : Plan} (hp : g.RunBy p) : p.IsLinear p.order :=
  .of_before hp.nodup hp.mem_before

theorem RunBy.node_mem {p : Plan} (hp : g.RunBy p) {id : NodeId} :
    .node id ∈ p.order ↔ (g.node? id).isSome := by
  rw [hp.mem_order]
  constructor
  · rintro (⟨_, hid, hlive⟩ | ⟨_, _, hid⟩)
    · exact Step.node.inj hid ▸ hlive
    · cases hid
  · exact fun hlive => .inl ⟨id, rfl, hlive⟩

/-- Induction from the producers of a node to the node. -/
theorem RunBy.induct {p : Plan} (hp : g.RunBy p) {motive : NodeId → Prop}
    (h : ∀ id, .node id ∈ p.order →
      (∀ c ∈ g.dependencies, c.sink = id → motive c.source) → motive id)
    {id : NodeId} (hid : .node id ∈ p.order) : motive id := by
  -- on how many steps come before the node
  induction hlength : (p.before (.node id)).length using Nat.strong_induction_on
    generalizing id with
  | _ n ih =>
    obtain ⟨after, horder⟩ := p.order_eq_before hid
    refine h id hid fun c hc hsink => ?_
    obtain ⟨first, second, hsplit⟩ := List.append_of_mem (hp.producers _ _ _ horder c hc hsink)
    have horder' : p.order = first ++ .node c.source :: (second ++ .node id :: after) := by
      rw [horder, hsplit, List.append_assoc, List.cons_append]
    have hnodup := hp.nodup
    rw [horder', List.nodup_middle, List.nodup_cons, List.mem_append, not_or] at hnodup
    refine ih _ ?_ (horder' ▸ List.mem_append_right _ List.mem_cons_self) rfl
    rw [Plan.before_eq horder' hnodup.1.1, ← hlength, hsplit, List.length_append, List.length_cons]
    omega

theorem RunBy.of_sameShape {p : Plan} (hp : g.RunBy p) (hs : SameShape g h) : h.RunBy p where
  nodup := hp.nodup
  mem_order step := by simp only [hs.node?_isSome, hp.mem_order]
  mem_before := hp.mem_before
  producers := by
    rw [dependencies, hs.connections]
    exact hp.producers
  input id input := by
    rw [feeder?, dependencies, hs.connections]
    exact hp.input id input
  gate id := by
    rw [feeder?, dependencies, hs.connections]
    exact hp.gate id
  carried := hs.carried.trans hp.carried

variable {s : Schedule} {config : CompileConfig}

theorem Integral.brings (hg : g.Integral) (config : CompileConfig)
    (hnet : s.layout.net = g.wiring) (hv : s.Valid) (id : NodeId) (input : Nat) :
    Option.Rel (s.plan config).Brings ((s.plan config).inputSource? id input)
      (g.feeder? id (.data input)) := by
  have hrouted {c : Connection} (hc : c ∈ g.connections) {output : Nat}
      (carries : c.carries? = some (.data output input)) :
      ∃ source, (s.plan config).inputSource? c.sink input = some source ∧
        (s.plan config).Brings source (.output c.source output) := by
    rcases hg.routed config hnet hv hc carries with hdirect |
      ⟨t, transfer, hsource, htransfer, hends⟩
    · exact ⟨_, hdirect, .inl rfl⟩
    · exact ⟨_, hsource, .inr ⟨t, transfer, rfl, htransfer, by rw [hends.1, hends.2]⟩⟩
  cases hfeeder : g.feeder? id (.data input) with
  | some feeder =>
    obtain ⟨c, hc, output, rfl, hsink, hsource, rfl⟩ := hg.feeder?_eq_some.mp hfeeder
    obtain ⟨source, hinput, hbrings⟩ := hrouted (List.mem_filter.mp hc).1
      (Connection.carries_data_iff.mpr ⟨hsource, hsink⟩)
    rw [hinput]
    exact .some hbrings
  | none =>
    cases hinput : (s.plan config).inputSource? id input with
    | none => exact .none
    | some source =>
      obtain ⟨e, he, hsink, rfl, _⟩ := hv.inputSource?_eq_some.mp hinput
      obtain ⟨c, hc, carries, _, hcsink, _⟩ := hg.data_connection config hnet hv he
      have hsome := hg.feeder_of_data hc carries
      rw [← hcsink, hsink, hfeeder] at hsome
      cases hsome

theorem Integral.gateSource?_eq (hg : g.Integral) (config : CompileConfig)
    (hnet : s.layout.net = g.wiring) (hv : s.Valid) (id : NodeId) :
    (s.plan config).gateSource? id = g.feeder? id .gate := by
  refine Option.ext fun source => ?_
  rw [hg.feeder?_eq_some]
  constructor
  · intro hsource
    obtain ⟨e, he, hsink, rfl⟩ := hv.gateSource?_eq_some.mp hsource
    obtain ⟨c, hc, carries, hcsource, hcsink⟩ := hg.gate_connection hnet he
    obtain ⟨hsourcePort, hsinkPort⟩ := Connection.carries_gate_iff.mp carries
    have hdep : c.isDependency = true := Connection.isDependency_iff.mpr (.inr ⟨_, carries⟩)
    exact ⟨c, List.mem_filter.mpr ⟨hc, hdep⟩, e.output, hcsink.symm.trans hsink, hsinkPort,
      hsourcePort, by rw [hcsource]⟩
  · rintro ⟨c, hc, output, rfl, hsink, hsource, rfl⟩
    exact hg.gate_edge config hnet hv (List.mem_filter.mp hc).1
      (Connection.carries_gate_iff.mpr ⟨hsource, hsink⟩)

theorem Integral.producer_before (hg : g.Integral) (config : CompileConfig)
    (hnet : s.layout.net = g.wiring) (hv : s.Valid) {before after : List Step} {c : Connection}
    (horder : (s.plan config).order = before ++ .node c.sink :: after)
    (hc : c ∈ g.dependencies) : .node c.source ∈ before := by
  obtain ⟨hmem, hdep⟩ := List.mem_filter.mp hc
  rcases Connection.isDependency_iff.mp hdep with ⟨output, input, carries⟩ | ⟨output, carries⟩
  · rcases hg.routed config hnet hv hmem carries with hdirect |
      ⟨t, transfer, hsource, htransfer, hends⟩
    · exact hv.mem_before horder ⟨_, .input hdirect, rfl⟩
    · have hbefore : .transfer t ∈ before := hv.mem_before horder ⟨_, .input hsource, rfl⟩
      obtain ⟨earlier, later, rfl⟩ := List.append_of_mem hbefore
      rw [List.append_assoc, List.cons_append] at horder
      have hearlier : .node transfer.source ∈ earlier :=
        hv.mem_before horder ⟨_, .transfer htransfer, rfl⟩
      exact List.mem_append_left _ (hends.1 ▸ hearlier)
  · exact hv.mem_before horder ⟨_, .gate (hg.gate_edge config hnet hv hmem carries), rfl⟩

theorem Reachable.runBy [Behavior β] (hg : Reachable g) {plan : Plan} (hplan : g.plan = some plan)
    (hcurrent : g.isOutdated = false) : g.RunBy plan := by
  have hi := hg.integral
  obtain ⟨hcompiles, hcarried⟩ := hg.planIsFresh plan hplan hcurrent
  obtain ⟨s, rfl, hnet, hv⟩ := hi.exists_schedule hcompiles
  refine ⟨hv.plan_order_nodup, fun step => ?_, fun _ _ _ heq _ => hv.mem_before heq,
    fun _ _ _ heq _ hc hsink => hi.producer_before _ hnet hv (hsink ▸ heq) hc, hi.brings _ hnet hv,
    hi.gateSource?_eq _ hnet hv, hcarried⟩
  rw [hi.mem_order hnet hv]
  refine or_congr_left ⟨fun ⟨n, hn, hstep⟩ => ⟨n.id, hstep, ?_⟩, fun ⟨id, hstep, hlive⟩ => ?_⟩
  · rw [hi.node?_id hn]
    rfl
  · obtain ⟨n, hn⟩ := Option.isSome_iff_exists.mp hlive
    exact ⟨n, mem_nodes_of_node? hn, by rw [hstep, hi.id_eq id n hn]⟩

end Graph

end FrameGraph
