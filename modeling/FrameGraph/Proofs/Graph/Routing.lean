import FrameGraph.Proofs.Graph.Order

/-! Routing across devices. A data connection within a device is read directly, one between
devices through a transfer, and one transfer serves all connections from one output to one
device. There are no other transfers, and they are numbered in the order of the first
connection that needs them: removing repetitions from the crossings keeps the first of
each. -/

namespace FrameGraph

/-! ### First occurrences -/

theorem filterMap_split {α γ : Type*} {f : α → Option γ} {l : List α} {before after : List γ}
    {b : γ} (h : l.filterMap f = before ++ b :: after) :
    ∃ front a back, l = front ++ a :: back ∧ f a = some b ∧ front.filterMap f = before := by
  obtain ⟨front, rest, rfl, hfront, hrest⟩ := List.filterMap_eq_append_iff.mp h
  obtain ⟨skipped, a, back, rfl, hskipped, ha, _⟩ := List.filterMap_eq_cons_iff.mp hrest
  refine ⟨front ++ skipped, a, back, by simp, ha, ?_⟩
  rw [List.filterMap_append, hfront, List.filterMap_eq_nil_iff.mpr hskipped, List.append_nil]

theorem pairwise_eraseDups {α : Type*} [BEq α] [LawfulBEq α] : (l : List α) →
    l.eraseDups.Pairwise fun a b => ∃ before after, l = before ++ a :: after ∧ b ∉ before
  | [] => by simp
  | a :: l => by
    have ih := pairwise_eraseDups (l.filter fun x => !x == a)
    rw [List.eraseDups_cons, List.pairwise_cons]
    refine ⟨fun b _ => ⟨[], l, rfl, List.not_mem_nil⟩, ih.imp_of_mem fun {b c} _ hc h => ?_⟩
    obtain ⟨before, after, hsplit, hbefore⟩ := h
    have hne : c ≠ a := by simpa using (List.mem_filter.mp (List.mem_eraseDups.mp hc)).2
    obtain ⟨front, rest, rfl, hfront, hrest⟩ := List.filter_eq_append_iff.mp hsplit
    obtain ⟨skipped, back, rfl, hskipped, _⟩ := List.filter_eq_cons_iff.mp hrest
    refine ⟨a :: (front ++ skipped), back, by simp, fun hmem => ?_⟩
    rcases List.mem_cons.mp hmem with rfl | hmem
    · exact hne rfl
    · rcases List.mem_append.mp hmem with hmem | hmem
      · exact hbefore (hfront ▸ List.mem_filter.mpr ⟨hmem, by simpa using hne⟩)
      · exact hskipped c hmem (by simpa using hne)
termination_by l => l.length
decreasing_by
  have := List.length_filter_le (fun x => !x == a) l
  simp only [List.length_cons]
  omega

namespace Layout

variable {l : Layout}

/-- Of two transfers the one with the lower number is needed first. -/
theorem transfers_ordered : l.transfers.Pairwise fun a b => ∃ before e after,
    l.net.data = before ++ e :: after ∧ l.crossing? e = some a ∧
      ∀ f ∈ before, l.crossing? f ≠ some b := by
  refine (pairwise_eraseDups (l.net.data.filterMap l.crossing?)).imp fun {a b} h => ?_
  obtain ⟨before, after, hsplit, hbefore⟩ := h
  obtain ⟨front, e, back, hdata, he, rfl⟩ := filterMap_split hsplit
  exact ⟨front, e, back, hdata, he, fun f hf hb => hbefore (List.mem_filterMap.mpr ⟨f, hf, hb⟩)⟩

end Layout

namespace Schedule

variable {s : Schedule} {config : CompileConfig}

/-- A transfer copies an output port of a cell to the device of a crossing. -/
structure Copies (s : Schedule) (c : Crossing) (port : OutputPort) (transfer : Transfer) :
    Prop where
  hasPort : s.outputPort? c.source c.output = some port
  source : transfer.source = s.nodeOf c.source
  output : transfer.output = c.output
  origin : transfer.origin = s.layout.deviceOf c.source
  target : transfer.target = c.target
  type : transfer.type = port.type
  size : transfer.size = port.size

/-- The transfers of a plan are the copies that the layout asks for. -/
theorem Valid.transfer_copies (hv : s.Valid) {t : Nat} {transfer : Transfer}
    (h : (s.plan config).transfers[t]? = some transfer) :
    ∃ e ∈ s.layout.net.data, ∃ c port, s.layout.crossing? e = some c ∧
      s.layout.transfers[t]? = some c ∧ s.Copies c port transfer := by
  obtain ⟨c, hc, rfl⟩ := Option.map_eq_some_iff.mp ((List.getElem?_map).symm.trans h)
  obtain ⟨e, he, hcross⟩ := Layout.mem_transfers.mp (List.mem_of_getElem? hc)
  obtain ⟨cell, _, port, _, hcell, _, hport, _⟩ := hv.sound.data e he
  have hport : s.outputPort? c.source c.output = some port := by
    obtain ⟨_, rfl⟩ := Layout.crossing?_eq_some.mp hcross
    rw [outputPort?, cell?, hcell, Option.bind_some, hport]
  exact ⟨e, he, c, port, hcross, hc,
    ⟨hport, rfl, rfl, rfl, rfl, by rw [hport]; rfl, by rw [hport]; rfl⟩⟩

end Schedule

namespace Graph

variable {β : Type} {g : Graph β}

/-- The sink of a data connection reads a transfer. -/
def Needs (p : Plan) (c : Connection) (t : Nat) : Prop :=
  ∃ output input, c.carries? = some (.data output input) ∧
    p.inputSource? c.sink input = some (.transfer t)

/-- A transfer copies the output that a data connection leaves from, from the device of its source
to that of its sink. -/
structure Bridges (g : Graph β) (p : Plan) (c : Connection) (index : Nat) (transfer : Transfer) :
    Prop where
  source : transfer.source = c.source
  output : transfer.output = index
  origin : p.deviceOf? c.source = some transfer.origin
  target : p.deviceOf? c.sink = some transfer.target
  /-- Type and size are those of the output port. -/
  schema : ∃ port : OutputPort, ((g.typeOf? c.source).bind fun type => type.outputs[index]?) =
    some port ∧ transfer.type = port.type ∧ transfer.size = port.size

/-- A plan reads the data of a graph directly within devices and through transfers between them. -/
structure IsRouted (g : Graph β) (p : Plan) : Prop where
  placed : ∀ n ∈ g.nodes, (p.deviceOf? n.id).isSome
  direct : ∀ c ∈ g.connections, ∀ output input, c.carries? = some (.data output input) →
    (p.inputSource? c.sink input = some (.output c.source output) ↔
      p.deviceOf? c.source = p.deviceOf? c.sink)
  across : ∀ c ∈ g.connections, ∀ output input, c.carries? = some (.data output input) →
    p.deviceOf? c.source ≠ p.deviceOf? c.sink →
    ∃ t transfer, p.inputSource? c.sink input = some (.transfer t) ∧
      p.transfers[t]? = some transfer ∧ g.Bridges p c output transfer
  /-- The numbers of the transfers that inputs read are those below the number of transfers. -/
  used : ∀ t, t < p.transfers.length ↔ ∃ id input, p.inputSource? id input = some (.transfer t)
  shared : p.transfers.Pairwise fun a b =>
    ¬(a.source = b.source ∧ a.output = b.output ∧ a.target = b.target)
  apart : ∀ transfer ∈ p.transfers, transfer.origin ≠ transfer.target
  /-- Before any connection that needs a transfer of a higher number one needs this. -/
  ordered : ∀ t u, t < u → u < p.transfers.length → ∃ before c after,
    g.connections = before ++ c :: after ∧ Needs p c t ∧ ∀ d ∈ before, ¬Needs p d u
  unfed : ∀ id input, (∀ c ∈ g.connections, ¬(c.sink = id ∧ c.sinkPort = .data input)) →
    p.inputSource? id input = none
  ungated : ∀ id, (∀ c ∈ g.connections, ¬(c.sink = id ∧ c.sinkPort = .gate)) →
    p.gateSource? id = none

variable {s : Schedule} {config : CompileConfig}

theorem Integral.deviceOf?_eq (hg : g.Integral) (config : CompileConfig)
    (hnet : s.layout.net = g.wiring) (hv : s.Valid) {id : NodeId} {n : Node β}
    (hn : g.node? id = some n) :
    (s.plan config).deviceOf? id = some (s.layout.deviceOf (g.cellIndex id)) := by
  obtain ⟨type, htype⟩ := hg.type?_isSome (mem_nodes_of_node? hn)
  have hlt : g.cellIndex id < s.layout.size := by
    rw [Layout.size, hnet]
    exact Netlist.lt_of_getElem? (hg.cells_cellIndex hn htype)
  have hdevice : (s.plan config).deviceOf? (s.nodeOf (g.cellIndex id)) = _ :=
    hv.deviceOf?_nodeOf hlt
  rwa [hg.nodeOf_cellIndex hnet hn] at hdevice

theorem mem_data_of_connection (hnet : s.layout.net = g.wiring) {c : Connection}
    (hc : c ∈ g.connections) {output input : Nat}
    (carries : c.carries? = some (.data output input)) :
    ⟨g.cellIndex c.source, output, g.cellIndex c.sink, input⟩ ∈ s.layout.net.data := by
  rw [hnet]
  exact mem_wiring_data.mpr ⟨c, hc, carries, rfl, rfl⟩

/-- The input of a data connection reads where the edge between its cells leads. -/
theorem Integral.inputSource?_eq (hg : g.Integral) (config : CompileConfig)
    (hnet : s.layout.net = g.wiring) (hv : s.Valid) {c : Connection} (hc : c ∈ g.connections)
    {output input : Nat} (carries : c.carries? = some (.data output input)) :
    (s.plan config).inputSource? c.sink input =
      some (s.sourceOf ⟨g.cellIndex c.source, output, g.cellIndex c.sink, input⟩) := by
  obtain ⟨_, m, hm⟩ := hg.ends_live hc
  exact hv.inputSource?_eq_some.mpr
    ⟨_, mem_data_of_connection hnet hc carries, hg.nodeOf_cellIndex hnet hm, rfl, rfl⟩

/-- The connection of a data edge needs the transfer of its crossing, and no other. -/
theorem Integral.needs_iff (hg : g.Integral) (config : CompileConfig)
    (hnet : s.layout.net = g.wiring) (hv : s.Valid) {c : Connection} (hc : c ∈ g.connections)
    {t : Nat} {x : Crossing} (hx : s.layout.transfers[t]? = some x) :
    Needs (s.plan config) c t ↔ ∃ e, g.dataEdge? c = some e ∧ s.layout.crossing? e = some x := by
  constructor
  · rintro ⟨output, input, carries, hinput⟩
    rw [hg.inputSource?_eq config hnet hv hc carries, Option.some.injEq,
      Schedule.sourceOf_eq_transfer, Layout.route_eq_some (mem_data_of_connection hnet hc carries)]
      at hinput
    obtain ⟨y, hcross, hy⟩ := hinput
    obtain rfl := Option.some.inj (hy.symm.trans hx)
    exact ⟨_, dataEdge?_eq_some.mpr ⟨carries, rfl, rfl⟩, hcross⟩
  · rintro ⟨e, he, hcross⟩
    obtain ⟨carries, hsource, hsink⟩ := dataEdge?_eq_some.mp he
    obtain ⟨source, output, sink, input⟩ := e
    obtain rfl : source = g.cellIndex c.source := hsource
    obtain rfl : sink = g.cellIndex c.sink := hsink
    refine ⟨output, input, carries, ?_⟩
    rw [hg.inputSource?_eq config hnet hv hc carries, Option.some.injEq,
      Schedule.sourceOf_eq_transfer, Layout.route_eq_some (mem_data_of_connection hnet hc carries)]
    exact ⟨x, hcross, hx⟩

theorem Integral.bridges (hg : g.Integral) (config : CompileConfig)
    (hnet : s.layout.net = g.wiring) (hv : s.Valid) {c : Connection} (hc : c ∈ g.connections)
    {output input : Nat} (carries : c.carries? = some (.data output input))
    (hapart : s.layout.deviceOf (g.cellIndex c.source) ≠ s.layout.deviceOf (g.cellIndex c.sink)) :
    ∃ t transfer, (s.plan config).inputSource? c.sink input = some (.transfer t) ∧
      (s.plan config).transfers[t]? = some transfer ∧
      g.Bridges (s.plan config) c output transfer := by
  obtain ⟨⟨n, hn⟩, m, hm⟩ := hg.ends_live hc
  have he := mem_data_of_connection hnet hc carries
  have hcross : s.layout.crossing? ⟨g.cellIndex c.source, output, g.cellIndex c.sink, input⟩ =
      some ⟨g.cellIndex c.source, output, s.layout.deviceOf (g.cellIndex c.sink)⟩ :=
    Layout.crossing?_eq_some.mpr ⟨hapart, rfl⟩
  obtain ⟨t, ht⟩ := List.mem_iff_getElem?.mp (Layout.mem_transfers.mpr ⟨_, he, hcross⟩)
  obtain ⟨transfer, htransfer⟩ : ∃ transfer, (s.plan config).transfers[t]? = some transfer :=
    ⟨_, (List.getElem?_map).trans (congrArg (Option.map _) ht)⟩
  obtain ⟨_, _, x, port, _, hx, hcopies⟩ := hv.transfer_copies htransfer
  obtain rfl := Option.some.inj (ht.symm.trans hx)
  refine ⟨t, transfer, ?_, htransfer, ?_⟩
  · rw [hg.inputSource?_eq config hnet hv hc carries, Option.some.injEq,
      Schedule.sourceOf_eq_transfer]
    exact (Layout.route_eq_some he).mpr ⟨_, hcross, ht⟩
  · have hport := hcopies.hasPort
    rw [← hg.outputPort?_nodeOf hnet (hv.sound.data_lt he).1, hg.nodeOf_cellIndex hnet hn] at hport
    exact {
      source := hcopies.source.trans (hg.nodeOf_cellIndex hnet hn)
      output := hcopies.output
      origin := by rw [hg.deviceOf?_eq config hnet hv hn, hcopies.origin]
      target := by rw [hg.deviceOf?_eq config hnet hv hm, hcopies.target]
      schema := ⟨port, hport, hcopies.type, hcopies.size⟩ }

/-- Of two transfers the one with the lower number is needed by the earlier connection. -/
theorem Integral.needs_ordered (hg : g.Integral) (config : CompileConfig)
    (hnet : s.layout.net = g.wiring) (hv : s.Valid) {t u : Nat} (htu : t < u)
    (hu : u < s.layout.transfers.length) : ∃ before c after,
      g.connections = before ++ c :: after ∧ Needs (s.plan config) c t ∧
        ∀ d ∈ before, ¬Needs (s.plan config) d u := by
  have ht := htu.trans hu
  obtain ⟨front, e, back, hdata, hcross, hfront⟩ :=
    List.pairwise_iff_getElem.mp s.layout.transfers_ordered t u ht hu htu
  rw [hnet] at hdata
  obtain ⟨before, c, after, hsplit, he, rfl⟩ := filterMap_split (f := g.dataEdge?) hdata
  have hmem {d : Connection} (hd : d ∈ before ++ [c]) : d ∈ g.connections := by
    rw [hsplit]
    exact List.mem_append.mpr ((List.mem_append.mp hd).imp_right fun h => by simp_all)
  refine ⟨before, c, after, hsplit, ?_, fun d hd hneeds => ?_⟩
  · exact (hg.needs_iff config hnet hv (hmem (by simp)) (List.getElem?_eq_getElem ht)).mpr
      ⟨e, he, hcross⟩
  · obtain ⟨f, hf, hother⟩ :=
      (hg.needs_iff config hnet hv (hmem (by simp [hd])) (List.getElem?_eq_getElem hu)).mp hneeds
    exact hfront f (List.mem_filterMap.mpr ⟨d, hd, hf⟩) hother

theorem Integral.isRouted (hg : g.Integral) (config : CompileConfig)
    (hnet : s.layout.net = g.wiring) (hv : s.Valid) : g.IsRouted (s.plan config) := by
  have hsame {c : Connection} (hc : c ∈ g.connections) :
      (s.plan config).deviceOf? c.source = (s.plan config).deviceOf? c.sink ↔
        s.layout.deviceOf (g.cellIndex c.source) = s.layout.deviceOf (g.cellIndex c.sink) := by
    obtain ⟨⟨n, hn⟩, m, hm⟩ := hg.ends_live hc
    rw [hg.deviceOf?_eq config hnet hv hn, hg.deviceOf?_eq config hnet hv hm, Option.some.injEq]
  constructor
  case placed =>
    intro n hn
    rw [hg.deviceOf?_eq config hnet hv (hg.node?_id hn)]
    rfl
  case direct =>
    intro c hc output input carries
    rw [hsame hc, hg.inputSource?_eq config hnet hv hc carries]
    constructor
    · intro hdirect
      by_contra hapart
      obtain ⟨t, _, hinput, _⟩ := hg.bridges config hnet hv hc carries hapart
      rw [hg.inputSource?_eq config hnet hv hc carries] at hinput
      exact nomatch hdirect.symm.trans hinput
    · intro heq
      obtain ⟨⟨n, hn⟩, _⟩ := hg.ends_live hc
      have hroute : s.layout.route ⟨g.cellIndex c.source, output, g.cellIndex c.sink, input⟩ =
          none := by
        rw [Layout.route, Layout.crossing?, if_pos heq, Option.map_none]
      rw [Schedule.sourceOf_direct hroute, hg.nodeOf_cellIndex hnet hn]
  case across =>
    intro c hc output input carries hapart
    exact hg.bridges config hnet hv hc carries fun h => hapart ((hsame hc).mpr h)
  case used =>
    intro t
    rw [Schedule.plan_transfers_length]
    constructor
    · intro ht
      obtain ⟨e, he, hcross⟩ := Layout.mem_transfers.mp (List.getElem_mem ht)
      have hroute := (Layout.route_eq_some he).mpr ⟨_, hcross, List.getElem?_eq_getElem ht⟩
      exact ⟨_, _, hv.inputSource?_eq_some.mpr
        ⟨e, he, rfl, rfl, Schedule.sourceOf_eq_transfer.mpr hroute⟩⟩
    · rintro ⟨id, input, hinput⟩
      obtain ⟨e, he, _, _, hsource⟩ := hv.inputSource?_eq_some.mp hinput
      exact Layout.lt_of_route he (Schedule.sourceOf_eq_transfer.mp hsource)
  case shared =>
    refine List.pairwise_iff_getElem.mpr fun t u ht hu htu hkey => ?_
    obtain ⟨hsource, houtput, htarget⟩ := hkey
    obtain ⟨e, he, x, _, hx, hxt, hcopies⟩ := hv.transfer_copies (List.getElem?_eq_getElem ht)
    obtain ⟨f, hf, y, _, hy, hyu, hcopies'⟩ := hv.transfer_copies (List.getElem?_eq_getElem hu)
    obtain rfl : x = y := by
      have hcell := hv.nodeOf_inj (i := x.source) (j := y.source)
        ((Layout.crossing?_eq_some.mp hx).2 ▸ (hv.sound.data_lt he).1)
        ((Layout.crossing?_eq_some.mp hy).2 ▸ (hv.sound.data_lt hf).1)
        (hcopies.source.symm.trans (hsource.trans hcopies'.source))
      have hport := hcopies.output.symm.trans (houtput.trans hcopies'.output)
      have hdevice := hcopies.target.symm.trans (htarget.trans hcopies'.target)
      cases x
      cases y
      simp_all
    rw [Schedule.plan_transfers_length] at ht
    exact Nat.ne_of_lt htu
      ((List.getElem?_inj ht s.layout.transfers_nodup).mp (hxt.trans hyu.symm))
  case apart =>
    intro transfer hmem
    obtain ⟨t, ht⟩ := List.mem_iff_getElem?.mp hmem
    obtain ⟨e, _, x, _, hx, _, hcopies⟩ := hv.transfer_copies ht
    obtain ⟨hne, rfl⟩ := Layout.crossing?_eq_some.mp hx
    rw [hcopies.origin, hcopies.target]
    exact hne
  case ordered =>
    intro t u htu hu
    rw [Schedule.plan_transfers_length] at hu
    exact hg.needs_ordered config hnet hv htu hu
  case unfed =>
    intro id input hnone
    refine Option.eq_none_iff_forall_ne_some.mpr fun source hsource => ?_
    obtain ⟨e, he, rfl, rfl, _⟩ := hv.inputSource?_eq_some.mp hsource
    obtain ⟨c, hc, carries, _, hsink, _⟩ := hg.data_connection config hnet hv he
    exact hnone c hc ⟨hsink.symm, (Connection.ports_of_data carries).2⟩
  case ungated =>
    intro id hnone
    refine Option.eq_none_iff_forall_ne_some.mpr fun source hsource => ?_
    obtain ⟨e, he, rfl, _⟩ := hv.gateSource?_eq_some.mp hsource
    obtain ⟨c, hc, carries, _, hsink⟩ := hg.gate_connection hnet he
    exact hnone c hc ⟨hsink.symm, (Connection.ports_of_gate carries).2⟩

/-- Inputs of the plan of a reachable graph read directly within a device and through shared
transfers between devices. -/
theorem Reachable.planFor_isRouted [Behavior β] (hg : Reachable g) {p : Plan}
    (h : g.planFor config = .ok p) : g.IsRouted p := by
  obtain ⟨s, rfl, hnet, hv⟩ := hg.integral.exists_schedule h
  exact hg.integral.isRouted config hnet hv

def fanNodes : Graph Script :=
  let typed := (Command.run ({} : Graph Script) (.registerType passType)).graph
  ["source", "far", "near", "mirror", "local"].foldl
    (fun g name => (Command.run g (.create ⟨3⟩ name)).graph) typed

/-- The first pass feeds the others, one on a second device, two on a third and one beside it. -/
def fan : Graph Script :=
  List.foldl (fun g c => (Command.run g c).graph) fanNodes
    [.setDevice ⟨1⟩ (some ⟨2⟩), .setDevice ⟨2⟩ (some ⟨1⟩), .setDevice ⟨3⟩ (some ⟨1⟩),
      .connect ⟨⟨0⟩, .data 0, ⟨1⟩, .data 0⟩, .connect ⟨⟨0⟩, .data 0, ⟨2⟩, .data 0⟩,
      .connect ⟨⟨0⟩, .data 0, ⟨3⟩, .data 0⟩, .connect ⟨⟨0⟩, .data 0, ⟨4⟩, .data 0⟩]

theorem fan_reachable : Reachable fan := by
  have hnodes : Reachable fanNodes :=
    ((((((Reachable.new _ _).run _).run _).run _).run _).run _).run _
  exact hnodes.edits _

/-- One transfer to each of the other devices, in the order of the connections. -/
theorem fan_routed : ∃ plan, fan.planFor {} = .ok plan ∧ fan.IsRouted plan ∧
    plan.transfers.map Transfer.target = [⟨2⟩, ⟨1⟩] ∧
    plan.inputSource? ⟨2⟩ 0 = some (.transfer 1) ∧ plan.inputSource? ⟨3⟩ 0 = some (.transfer 1) ∧
    plan.inputSource? ⟨4⟩ 0 = some (.output ⟨0⟩ 0) := by
  have hplan : (fan.planFor {}).map (fun plan => (plan.transfers.map Transfer.target,
      plan.inputSource? ⟨2⟩ 0, plan.inputSource? ⟨3⟩ 0, plan.inputSource? ⟨4⟩ 0)) =
      .ok ([⟨2⟩, ⟨1⟩], some (.transfer 1), some (.transfer 1), some (.output ⟨0⟩ 0)) := by
    decide +kernel
  obtain ⟨plan, h, hread⟩ := exists_of_map_eq_ok hplan
  simp only [Prod.mk.injEq] at hread
  exact ⟨plan, h, fan_reachable.planFor_isRouted h, hread⟩

end Graph

end FrameGraph
