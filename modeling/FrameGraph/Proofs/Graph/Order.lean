import FrameGraph.Proofs.Graph.Freshness
import FrameGraph.Proofs.Plan.Sources

/-! The order of a plan, seen from its graph. A step depends on another over a data
connection as it is routed, directly or through a transfer, or over a gate connection.
These are the uses of the layout under the names of nodes and transfers, so the layered
sort schedules the graph: every live node and every transfer once, producers first, and
in as few waves as the dependencies allow. -/

namespace FrameGraph

namespace Graph

variable {β : Type} {g : Graph β}

/-- A connection makes a step read a source. Over a data connection the sink reads the output itself
or, where the plan routes it, a transfer reads the output and the sink the transfer. -/
inductive Reads (g : Graph β) (p : Plan) : Step → Source → Prop
  | direct {c : Connection} {output input : Nat} (hc : c ∈ g.connections)
      (carries : c.carries? = some (.data output input))
      (source : p.inputSource? c.sink input = some (.output c.source output)) :
      Reads g p (.node c.sink) (.output c.source output)
  | outbound {c : Connection} {output input t : Nat} (hc : c ∈ g.connections)
      (carries : c.carries? = some (.data output input))
      (source : p.inputSource? c.sink input = some (.transfer t)) :
      Reads g p (.transfer t) (.output c.source output)
  | inbound {c : Connection} {output input t : Nat} (hc : c ∈ g.connections)
      (carries : c.carries? = some (.data output input))
      (source : p.inputSource? c.sink input = some (.transfer t)) :
      Reads g p (.node c.sink) (.transfer t)
  | gate {c : Connection} {output : Nat} (hc : c ∈ g.connections)
      (carries : c.carries? = some (.gate output)) :
      Reads g p (.node c.sink) (.output c.source output)

def StepDepends (g : Graph β) (p : Plan) (a b : Step) : Prop :=
  ∃ source, g.Reads p b source ∧ source.origin.1 = a

/-- A plan schedules the steps of a graph. -/
structure IsSchedule (g : Graph β) (p : Plan) : Prop where
  order_eq : p.order = p.waves.flatten
  nodup : p.order.Nodup
  mem_order : ∀ step, step ∈ p.order ↔
    (∃ n ∈ g.nodes, step = .node n.id) ∨ ∃ t < p.transfers.length, step = .transfer t
  /-- Data comes from before its consumer, through a transfer between the two if it is routed. -/
  data : ∀ c ∈ g.connections, ∀ output input, c.carries? = some (.data output input) →
    (p.inputSource? c.sink input = some (.output c.source output) ∧
      p.Precedes (.node c.source) (.node c.sink)) ∨
    ∃ t transfer, p.inputSource? c.sink input = some (.transfer t) ∧
      p.transfers[t]? = some transfer ∧ transfer.source = c.source ∧ transfer.output = output ∧
      p.Precedes (.node c.source) (.transfer t) ∧ p.Precedes (.transfer t) (.node c.sink)
  gate : ∀ c ∈ g.connections, ∀ output, c.carries? = some (.gate output) →
    p.gateSource? c.sink = some (.output c.source output) ∧
      p.Precedes (.node c.source) (.node c.sink)
  /-- A step is in the wave that its longest chain of dependencies counts. -/
  wave : ∀ k step, (∃ wave, p.waves[k]? = some wave ∧ step ∈ wave) ↔
    step ∈ p.order ∧ IsGreatest {m | ChainTo (g.StepDepends p) m step} k
  independent : ∀ wave ∈ p.waves, ∀ a ∈ wave, ∀ b ∈ wave,
    ¬Relation.TransGen (g.StepDepends p) a b
  /-- Any layers in which dependencies ascend are at least as many. -/
  minimal : ∀ (layer : Step → Nat) (count : Nat), (∀ step ∈ p.order, layer step < count) →
    (∀ a b, g.StepDepends p a b → layer a < layer b) → p.waves.length ≤ count
  /-- In a wave nodes stand in the order of declaration, and transfers after them by number. -/
  arrangement : ∀ wave ∈ p.waves, ∃ (ids : List NodeId) (numbers : List Nat),
    wave = ids.map .node ++ numbers.map .transfer ∧
      ids.Sublist (g.nodes.map Node.id) ∧ numbers.Pairwise (· < ·)
  first : g.nodes ≠ [] → p.waves.head? = some (g.roots.map .node)

variable {s : Schedule} {config : CompileConfig}

/-! ### Names of cells -/

theorem Integral.nodeOf_cellIndex (hg : g.Integral) (hnet : s.layout.net = g.wiring) {id : NodeId}
    {n : Node β} (hn : g.node? id = some n) : s.nodeOf (g.cellIndex id) = id := by
  obtain ⟨type, htype⟩ := hg.type?_isSome (mem_nodes_of_node? hn)
  have hcell : s.layout.net.cells[g.cellIndex id]? = some (Cell.ofNode n type) := by
    rw [hnet]
    exact hg.cells_cellIndex hn htype
  rw [Schedule.nodeOf_eq hcell]
  exact hg.id_eq id n hn

def outputPort? (g : Graph β) (id : NodeId) (output : Nat) : Option OutputPort :=
  (g.typeOf? id).bind fun type => type.outputs[output]?

theorem Integral.outputPort?_nodeOf (hg : g.Integral) (hnet : s.layout.net = g.wiring) {i : Nat}
    (hi : i < s.layout.size) (output : Nat) :
    g.outputPort? (s.nodeOf i) output = s.outputPort? i output := by
  obtain ⟨cell, hcell⟩ : ∃ cell, s.layout.net.cells[i]? = some cell :=
    ⟨_, List.getElem?_eq_getElem hi⟩
  have hwired := hcell
  rw [hnet] at hwired
  obtain ⟨n, type, hn, htype, rfl, _⟩ := hg.node?_of_cell hwired
  rw [outputPort?, Schedule.nodeOf_eq hcell, typeOf?, hn, Option.bind_some, htype,
    Schedule.outputPort?, Schedule.cell?, hcell]
  rfl

theorem Integral.ids_eq_range (hg : g.Integral) (hnet : s.layout.net = g.wiring) :
    g.nodes.map Node.id = (List.range s.layout.size).map s.nodeOf := by
  have hids : s.layout.net.cells.map Cell.id = g.nodes.map Node.id := by
    rw [hnet]
    exact hg.cells_ids
  rw [← hids]
  apply List.ext_getElem?
  intro i
  rw [List.getElem?_map, List.getElem?_map]
  by_cases hi : i < s.layout.size
  · rw [List.getElem?_range hi, List.getElem?_eq_getElem hi, Option.map_some, Option.map_some,
      Schedule.nodeOf_eq (List.getElem?_eq_getElem hi)]
  · have hle : s.layout.size ≤ i := Nat.le_of_not_lt hi
    rw [List.getElem?_eq_none hle, List.getElem?_eq_none (by rwa [List.length_range])]
    rfl

/-! ### Connections as routed -/

theorem Integral.data_edge (hg : g.Integral) (config : CompileConfig)
    (hnet : s.layout.net = g.wiring) (hv : s.Valid) {c : Connection} (hc : c ∈ g.connections)
    {output input : Nat} (carries : c.carries? = some (.data output input)) :
    ∃ e ∈ s.layout.net.data, s.nodeOf e.source = c.source ∧ e.output = output ∧
      (s.plan config).inputSource? c.sink input = some (s.sourceOf e) := by
  obtain ⟨⟨n, hn⟩, m, hm⟩ := hg.ends_live hc
  have he : ⟨g.cellIndex c.source, output, g.cellIndex c.sink, input⟩ ∈ s.layout.net.data := by
    rw [hnet]
    exact mem_wiring_data.mpr ⟨c, hc, carries, rfl, rfl⟩
  have hsink := hg.nodeOf_cellIndex hnet hm
  exact ⟨_, he, hg.nodeOf_cellIndex hnet hn, rfl,
    hv.inputSource?_eq_some.mpr ⟨_, he, hsink, rfl, rfl⟩⟩

theorem Integral.data_connection (hg : g.Integral) (config : CompileConfig)
    (hnet : s.layout.net = g.wiring) (hv : s.Valid) {e : DataEdge} (he : e ∈ s.layout.net.data) :
    ∃ c ∈ g.connections, c.carries? = some (.data e.output e.input) ∧
      s.nodeOf e.source = c.source ∧ s.nodeOf e.sink = c.sink ∧
      (s.plan config).inputSource? c.sink e.input = some (s.sourceOf e) := by
  have hmem := he
  rw [hnet] at hmem
  obtain ⟨c, hc, carries, hsource, hsink⟩ := mem_wiring_data.mp hmem
  obtain ⟨⟨n, hn⟩, m, hm⟩ := hg.ends_live hc
  have hsource : s.nodeOf e.source = c.source := by rw [hsource, hg.nodeOf_cellIndex hnet hn]
  have hsink : s.nodeOf e.sink = c.sink := by rw [hsink, hg.nodeOf_cellIndex hnet hm]
  exact ⟨c, hc, carries, hsource, hsink, hv.inputSource?_eq_some.mpr ⟨e, he, hsink, rfl, rfl⟩⟩

theorem Integral.gate_edge (hg : g.Integral) (config : CompileConfig)
    (hnet : s.layout.net = g.wiring) (hv : s.Valid) {c : Connection} (hc : c ∈ g.connections)
    {output : Nat} (carries : c.carries? = some (.gate output)) :
    (s.plan config).gateSource? c.sink = some (.output c.source output) := by
  obtain ⟨⟨n, hn⟩, m, hm⟩ := hg.ends_live hc
  have he : ⟨g.cellIndex c.source, output, g.cellIndex c.sink⟩ ∈ s.layout.net.gates := by
    rw [hnet]
    exact mem_wiring_gates.mpr ⟨c, hc, carries, rfl, rfl⟩
  refine hv.gateSource?_eq_some.mpr ⟨_, he, hg.nodeOf_cellIndex hnet hm, ?_⟩
  rw [hg.nodeOf_cellIndex hnet hn]

theorem Integral.gate_connection (hg : g.Integral) (hnet : s.layout.net = g.wiring)
    {e : GateEdge} (he : e ∈ s.layout.net.gates) :
    ∃ c ∈ g.connections, c.carries? = some (.gate e.output) ∧
      s.nodeOf e.source = c.source ∧ s.nodeOf e.sink = c.sink := by
  rw [hnet] at he
  obtain ⟨c, hc, carries, hsource, hsink⟩ := mem_wiring_gates.mp he
  obtain ⟨⟨n, hn⟩, m, hm⟩ := hg.ends_live hc
  rw [hsource, hsink]
  exact ⟨c, hc, carries, hg.nodeOf_cellIndex hnet hn, hg.nodeOf_cellIndex hnet hm⟩

/-- The sink of a data connection reads the output itself, or a transfer of it. -/
theorem Integral.routed (hg : g.Integral) (config : CompileConfig)
    (hnet : s.layout.net = g.wiring) (hv : s.Valid) {c : Connection} (hc : c ∈ g.connections)
    {output input : Nat} (carries : c.carries? = some (.data output input)) :
    (s.plan config).inputSource? c.sink input = some (.output c.source output) ∨
    ∃ t transfer, (s.plan config).inputSource? c.sink input = some (.transfer t) ∧
      (s.plan config).transfers[t]? = some transfer ∧ transfer.source = c.source ∧
      transfer.output = output := by
  obtain ⟨e, he, hsource, rfl, hinput⟩ := hg.data_edge config hnet hv hc carries
  rw [hinput]
  cases hroute : s.layout.route e with
  | none => exact .inl (by rw [Schedule.sourceOf_direct hroute, hsource])
  | some t =>
    obtain ⟨transfer, htransfer, htsource, htoutput⟩ := Schedule.exists_transfer config he hroute
    exact .inr ⟨t, transfer, by rw [Schedule.sourceOf_eq_transfer.mpr hroute], htransfer,
      htsource.trans hsource, htoutput⟩

/-- What the steps of the plan read is what the connections make them read. -/
theorem Integral.reads_iff (hg : g.Integral) (hnet : s.layout.net = g.wiring) (hv : s.Valid)
    {reader : Step} {source : Source} :
    (s.plan config).Reads reader source ↔ g.Reads (s.plan config) reader source := by
  constructor
  · intro h
    cases h with
    | input h =>
      obtain ⟨e, he, rfl, rfl, rfl⟩ := hv.inputSource?_eq_some.mp h
      obtain ⟨c, hc, carries, hsource, hsink, hinput⟩ := hg.data_connection config hnet hv he
      rw [hsink]
      cases hroute : s.layout.route e with
      | none =>
        rw [Schedule.sourceOf_direct hroute, hsource] at hinput ⊢
        exact .direct hc carries hinput
      | some t =>
        rw [Schedule.sourceOf_eq_transfer.mpr hroute] at hinput ⊢
        exact .inbound hc carries hinput
    | gate h =>
      obtain ⟨e, he, rfl, rfl⟩ := hv.gateSource?_eq_some.mp h
      obtain ⟨c, hc, carries, hsource, hsink⟩ := hg.gate_connection hnet he
      rw [hsource, hsink]
      exact .gate hc carries
    | transfer h =>
      obtain ⟨x, hx, hxsource, hxoutput⟩ := Schedule.transfers_getElem?_eq_some h
      obtain ⟨e, he, hcross⟩ := Layout.mem_transfers.mp (List.mem_of_getElem? hx)
      have hroute := (Layout.route_eq_some he).mpr ⟨x, hcross, hx⟩
      obtain ⟨_, rfl⟩ := Layout.crossing?_eq_some.mp hcross
      obtain ⟨c, hc, carries, hsource, _, hinput⟩ := hg.data_connection config hnet hv he
      rw [Schedule.sourceOf_eq_transfer.mpr hroute] at hinput
      rw [hxsource, hxoutput, hsource]
      exact .outbound hc carries hinput
  · intro h
    cases h with
    | direct hc carries source => exact .input source
    | inbound hc carries source => exact .input source
    | gate hc carries => exact .gate (hg.gate_edge config hnet hv hc carries)
    | outbound hc carries source =>
      obtain hdirect | ⟨t, transfer, hinput, htransfer, hsource, houtput⟩ :=
        hg.routed config hnet hv hc carries
      · exact nomatch hdirect.symm.trans source
      · obtain rfl := Source.transfer.inj (Option.some.inj (hinput.symm.trans source))
        rw [← hsource, ← houtput]
        exact .transfer htransfer

/-- Dependencies of steps are the uses of the layout. -/
theorem Integral.stepDepends_iff (hg : g.Integral) (config : CompileConfig)
    (hnet : s.layout.net = g.wiring) (hv : s.Valid) {a b : Step} :
    g.StepDepends (s.plan config) a b ↔ s.Uses a b := by
  constructor
  · rintro ⟨source, hreads, rfl⟩
    obtain ⟨u, hu, hreader, horigin⟩ := hv.reads_iff.mp ((hg.reads_iff hnet hv).mpr hreads)
    exact ⟨u, hu, by rw [horigin], hreader⟩
  · rintro ⟨u, hu, rfl, rfl⟩
    obtain ⟨source, horigin⟩ := hv.exists_source hu
    exact ⟨source, (hg.reads_iff hnet hv).mp (hv.reads_iff.mpr ⟨u, hu, rfl, horigin⟩),
      by rw [horigin]⟩

/-! ### The schedule -/

theorem StepDepends.exists_dependency {p : Plan} {a : Step} {id : NodeId}
    (h : g.StepDepends p a (.node id)) : ∃ c ∈ g.dependencies, c.sink = id := by
  have hdata {c : Connection} {output input : Nat} (hc : c ∈ g.connections)
      (carries : c.carries? = some (.data output input)) : c ∈ g.dependencies :=
    List.mem_filter.mpr ⟨hc, Connection.isDependency_iff.mpr (.inl ⟨_, _, carries⟩)⟩
  obtain ⟨source, hreads, _⟩ := h
  cases hreads with
  | direct hc carries => exact ⟨_, hdata hc carries, rfl⟩
  | inbound hc carries => exact ⟨_, hdata hc carries, rfl⟩
  | gate hc carries =>
    exact ⟨_, List.mem_filter.mpr ⟨hc, Connection.isDependency_iff.mpr (.inr ⟨_, carries⟩)⟩, rfl⟩

theorem Integral.exists_stepDepends (hg : g.Integral) (config : CompileConfig)
    (hnet : s.layout.net = g.wiring) (hv : s.Valid) {c : Connection} (hc : c ∈ g.dependencies) :
    ∃ a, g.StepDepends (s.plan config) a (.node c.sink) := by
  obtain ⟨hmem, hdep⟩ := List.mem_filter.mp hc
  rcases Connection.isDependency_iff.mp hdep with ⟨output, input, carries⟩ | ⟨output, carries⟩
  · rcases hg.routed config hnet hv hmem carries with hsource | ⟨t, _, hsource, _⟩
    · exact ⟨_, _, .direct hmem carries hsource, rfl⟩
    · exact ⟨_, _, .inbound hmem carries hsource, rfl⟩
  · exact ⟨_, _, .gate hmem carries, rfl⟩

/-- A cell uses something exactly when a dependency leads to its node. -/
theorem Integral.isFed_eq (hg : g.Integral) (config : CompileConfig)
    (hnet : s.layout.net = g.wiring) (hv : s.Valid) {i : Nat} (hi : i < s.layout.size) :
    s.isFed i = g.dependencies.any fun c => c.sink == s.nodeOf i := by
  have hlt : i < s.layout.stepCount := Nat.lt_of_lt_of_le hi (Nat.le_add_right _ _)
  rw [Bool.eq_iff_iff, Schedule.isFed, List.any_eq_true, List.any_eq_true]
  constructor
  · rintro ⟨u, hu, hreader⟩
    have huses : s.Uses (s.stepOf u.producer) (.node (s.nodeOf i)) :=
      ⟨u, hu, rfl, by rw [beq_iff_eq.mp hreader, Schedule.stepOf_cell hi]⟩
    obtain ⟨c, hc, hsink⟩ :=
      ((hg.stepDepends_iff config hnet hv).mpr huses).exists_dependency
    exact ⟨c, hc, beq_iff_eq.mpr hsink⟩
  · rintro ⟨c, hc, hsink⟩
    obtain ⟨a, ha⟩ := hg.exists_stepDepends config hnet hv hc
    obtain ⟨u, hu, _, hreader⟩ := (hg.stepDepends_iff config hnet hv).mp ha
    rw [beq_iff_eq.mp hsink, ← Schedule.stepOf_cell hi] at hreader
    exact ⟨u, hu, beq_iff_eq.mpr (hv.stepOf_inj (Layout.uses_lt hv.sound hu).2 hlt hreader)⟩

theorem Integral.first_wave (hg : g.Integral) (hnet : s.layout.net = g.wiring) (hv : s.Valid)
    (hnodes : g.nodes ≠ []) : (s.plan config).waves.head? = some (g.roots.map .node) := by
  have hids := hg.ids_eq_range hnet
  have hsize : 0 < s.layout.size := by
    have hlength := congrArg List.length hids
    rw [List.length_map, List.length_map, List.length_range] at hlength
    rw [← hlength]
    exact List.length_pos_iff.mpr hnodes
  have hroots : g.roots = ((List.range s.layout.size).filter fun i => !s.isFed i).map s.nodeOf := by
    rw [roots, hids, List.filter_map]
    congr 1
    apply List.filter_congr
    intro i hi
    rw [hg.isFed_eq config hnet hv (List.mem_range.mp hi)]
    rfl
  rw [hv.first_wave hsize, hroots, List.map_map]
  rfl

theorem Integral.mem_order (hg : g.Integral) (hnet : s.layout.net = g.wiring) (hv : s.Valid)
    (step : Step) : step ∈ (s.plan config).order ↔ (∃ n ∈ g.nodes, step = .node n.id) ∨
      ∃ t < (s.plan config).transfers.length, step = .transfer t := by
  have hnodes (id : NodeId) :
      (∃ n ∈ g.nodes, n.id = id) ↔ ∃ i < s.layout.size, s.nodeOf i = id := by
    rw [← List.mem_map, hg.ids_eq_range hnet, List.mem_map]
    simp only [List.mem_range]
  rw [hv.mem_plan_order, Schedule.plan_transfers_length]
  constructor
  · rintro ⟨i, hi, rfl⟩
    rcases Schedule.cell_or_transfer hi with hcell | ⟨t, ht, rfl⟩
    · obtain ⟨n, hn, hid⟩ := (hnodes _).mpr ⟨i, hcell, rfl⟩
      exact .inl ⟨n, hn, by rw [Schedule.stepOf_cell hcell, hid]⟩
    · exact .inr ⟨t, ht, Schedule.stepOf_transfer t⟩
  · rintro (⟨n, hn, rfl⟩ | ⟨t, ht, rfl⟩)
    · obtain ⟨i, hi, hid⟩ := (hnodes _).mp ⟨n, hn, rfl⟩
      exact ⟨i, Nat.lt_of_lt_of_le hi (Nat.le_add_right _ _), by
        rw [Schedule.stepOf_cell hi, hid]⟩
    · exact ⟨s.layout.size + t, Nat.add_lt_add_left ht _, Schedule.stepOf_transfer t⟩

theorem Integral.isSchedule (hg : g.Integral) (hnet : s.layout.net = g.wiring) (hv : s.Valid) :
    g.IsSchedule (s.plan config) := by
  have hdepends : g.StepDepends (s.plan config) = s.Uses := by
    funext a b
    exact propext (hg.stepDepends_iff config hnet hv)
  have hprecedes {a b : Step} (h : g.StepDepends (s.plan config) a b) :
      (s.plan config).Precedes a b :=
    hv.precedes_of_uses ((hg.stepDepends_iff config hnet hv).mp h)
  constructor
  case order_eq => rfl
  case nodup => exact hv.plan_order_nodup
  case mem_order => exact hg.mem_order hnet hv
  case data =>
    intro c hc output input carries
    rcases hg.routed config hnet hv hc carries with hsource |
      ⟨t, transfer, hsource, htransfer, hends⟩
    · exact .inl ⟨hsource, hprecedes ⟨_, .direct hc carries hsource, rfl⟩⟩
    · exact .inr ⟨t, transfer, hsource, htransfer, hends.1, hends.2,
        hprecedes ⟨_, .outbound hc carries hsource, rfl⟩,
        hprecedes ⟨_, .inbound hc carries hsource, rfl⟩⟩
  case gate =>
    intro c hc output carries
    exact ⟨hg.gate_edge config hnet hv hc carries, hprecedes ⟨_, .gate hc carries, rfl⟩⟩
  case wave =>
    rw [hdepends]
    exact fun k step => hv.mem_plan_wave_iff
  case independent =>
    rw [hdepends]
    exact fun wave hwave a ha b hb => hv.not_transGen hwave ha hb
  case minimal =>
    rw [hdepends]
    exact fun layer count hcount hlayer => hv.length_waves_le layer hcount hlayer
  case arrangement =>
    intro wave hwave
    obtain ⟨numbers, hnumbers, rfl⟩ := List.mem_map.mp hwave
    refine ⟨_, _, hv.plan_wave_eq hnumbers, ?_, List.pairwise_lt_range.filter _⟩
    rw [hg.ids_eq_range hnet]
    exact List.filter_sublist.map _
  case first => exact hg.first_wave hnet hv

theorem Integral.exists_schedule (hg : g.Integral) {p : Plan} (h : g.planFor config = .ok p) :
    ∃ s : Schedule, p = s.plan config ∧ s.layout.net = g.wiring ∧ s.Valid := by
  obtain ⟨s, hs, rfl⟩ := hg.planFor_eq_ok.mp h
  exact ⟨s, rfl, Netlist.schedule_valid hg.wiring_sound hs⟩

/-- The plan to which a reachable graph compiles is a schedule of its steps. -/
theorem Reachable.planFor_isSchedule [Behavior β] (hg : Reachable g) {p : Plan}
    (h : g.planFor config = .ok p) : g.IsSchedule p := by
  obtain ⟨s, rfl, hnet, hv⟩ := hg.integral.exists_schedule h
  exact hg.integral.isSchedule hnet hv

theorem chain_isSchedule : ∃ plan, chain.planFor {} = .ok plan ∧ chain.IsSchedule plan ∧
    plan.waves = [[.node ⟨0⟩, .node ⟨3⟩], [.transfer 0], [.node ⟨1⟩], [.node ⟨2⟩]] := by
  have hwaves : (chain.planFor {}).map Plan.waves =
      .ok [[.node ⟨0⟩, .node ⟨3⟩], [.transfer 0], [.node ⟨1⟩], [.node ⟨2⟩]] := by decide +kernel
  cases h : chain.planFor {} with
  | error e =>
    rw [h] at hwaves
    cases hwaves
  | ok plan =>
    rw [h] at hwaves
    exact ⟨plan, rfl, chain_reachable.planFor_isSchedule h, Except.ok.inj hwaves⟩

end Graph

end FrameGraph
