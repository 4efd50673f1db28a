import FrameGraph.Proofs.Graph.Integrity
import FrameGraph.Proofs.Plan.Schedule

/-! The netlist of an integral graph. Live nodes become cells in order of declaration,
data and gate connections become edges between the numbers of their cells, and loop
connections leave no trace. Resolution checks all this again and never refuses an
integral graph; the netlist that it builds is `wiring`, given here in closed form. -/

namespace FrameGraph

variable {β : Type}

namespace Connection

theorem ports_of_data {c : Connection} {output input : Nat}
    (h : c.carries? = some (.data output input)) :
    c.sourcePort = .data output ∧ c.sinkPort = .data input := by
  unfold carries? at h
  split at h <;> simp_all

theorem ports_of_gate {c : Connection} {output : Nat} (h : c.carries? = some (.gate output)) :
    c.sourcePort = .data output ∧ c.sinkPort = .gate := by
  unfold carries? at h
  split at h <;> simp_all

theorem ports_of_loops {c : Connection} (h : c.carries? = some .loops) :
    c.sourcePort = .loopOut ∧ c.sinkPort = .loopIn := by
  unfold carries? at h
  split at h <;> simp_all

theorem isDependency_iff {c : Connection} :
    c.isDependency = true ↔
      (∃ output input, c.carries? = some (.data output input)) ∨
        ∃ output, c.carries? = some (.gate output) := by
  unfold isDependency
  split
  · next output input h => simp [h]
  · next output h => simp [h]
  · next hdata hgate =>
    constructor
    · intro h
      cases h
    · rintro (⟨output, input, h⟩ | ⟨output, h⟩)
      · exact absurd h (hdata output input)
      · exact absurd h (hgate output)

end Connection

namespace Graph

def ids (g : Graph β) : List NodeId := g.nodes.map Node.id

/-- The place of a node among the live ones, which is the number of its cell. -/
def cellIndex (g : Graph β) (id : NodeId) : Nat := g.ids.idxOf id

def cells (g : Graph β) : List Cell :=
  g.nodes.filterMap fun n => (g.type? n.type).map (Cell.ofNode n)

def dataEdge? (g : Graph β) (c : Connection) : Option DataEdge :=
  match c.carries? with
  | some (.data output input) => some ⟨g.cellIndex c.source, output, g.cellIndex c.sink, input⟩
  | _ => none

def gateEdge? (g : Graph β) (c : Connection) : Option GateEdge :=
  match c.carries? with
  | some (.gate output) => some ⟨g.cellIndex c.source, output, g.cellIndex c.sink⟩
  | _ => none

/-- The cells of the live nodes and the edges of some connections. -/
def wiringOf (g : Graph β) (connections : List Connection) : Netlist :=
  ⟨g.cells, connections.filterMap g.dataEdge?, connections.filterMap g.gateEdge?⟩

def wiring (g : Graph β) : Netlist := g.wiringOf g.connections

variable {g : Graph β}

theorem dataEdge?_eq_some {c : Connection} {e : DataEdge} :
    g.dataEdge? c = some e ↔ c.carries? = some (.data e.output e.input) ∧
      e.source = g.cellIndex c.source ∧ e.sink = g.cellIndex c.sink := by
  unfold dataEdge?
  obtain ⟨source, output, sink, input⟩ := e
  split
  · next o i h => simp only [h, Option.some.injEq, DataEdge.mk.injEq, Carries.data.injEq]; grind
  · next h =>
    constructor
    · intro he
      cases he
    · rintro ⟨he, _⟩
      exact absurd he (h output input)

theorem gateEdge?_eq_some {c : Connection} {e : GateEdge} :
    g.gateEdge? c = some e ↔ c.carries? = some (.gate e.output) ∧
      e.source = g.cellIndex c.source ∧ e.sink = g.cellIndex c.sink := by
  unfold gateEdge?
  obtain ⟨source, output, sink⟩ := e
  split
  · next o h => simp only [h, Option.some.injEq, GateEdge.mk.injEq, Carries.gate.injEq]; grind
  · next h =>
    constructor
    · intro he
      cases he
    · rintro ⟨he, _⟩
      exact absurd he (h output)

/-! ### Cells of live nodes -/

theorem getElem?_filterMap_of_isSome {α γ : Type} (f : α → Option γ) (l : List α)
    (h : ∀ a ∈ l, (f a).isSome) (i : Nat) : (l.filterMap f)[i]? = l[i]?.bind f := by
  induction l generalizing i with
  | nil => rfl
  | cons a l ih =>
    obtain ⟨b, hb⟩ := Option.isSome_iff_exists.mp (h a (by simp))
    rw [List.filterMap_cons_some hb]
    cases i with
    | zero => simp [hb]
    | succ i => simpa using ih (fun a ha => h a (by simp [ha])) i

theorem Integral.type?_isSome (hg : g.Integral) {n : Node β} (hn : n ∈ g.nodes) :
    ∃ type, g.type? n.type = some type :=
  ⟨_, List.getElem?_eq_getElem (hg.typed n hn)⟩

theorem Integral.nodes_sorted (hg : g.Integral) :
    g.nodes.Pairwise fun m n => m.id.index < n.id.index := by
  rw [nodes, List.pairwise_filterMap, List.pairwise_iff_getElem]
  intro i j hi hj hij m hm n hn
  have hid (k : Nat) (hk : k < g.slots.length) (n : Node β) (hn : g.slots[k] = some n) :
      n.id.index = k :=
    congrArg NodeId.index (hg.id_eq ⟨k⟩ n (by simp [node?, hk, hn]))
  rw [hid i hi m hm, hid j hj n hn]
  exact hij

theorem Integral.ids_sorted (hg : g.Integral) : g.ids.Pairwise fun a b => a.index < b.index :=
  List.pairwise_map.mpr hg.nodes_sorted

theorem nodup_of_sorted {ids : List NodeId} (h : ids.Pairwise fun a b => a.index < b.index) :
    ids.Nodup :=
  h.imp fun hlt heq => absurd (congrArg NodeId.index heq) (Nat.ne_of_lt hlt)

theorem Integral.ids_nodup (hg : g.Integral) : g.ids.Nodup := nodup_of_sorted hg.ids_sorted

theorem mem_ids_of_node? (hg : g.Integral) {id : NodeId} {n : Node β} (hn : g.node? id = some n) :
    id ∈ g.ids :=
  List.mem_map.mpr ⟨n, mem_nodes_of_node? hn, hg.id_eq id n hn⟩

theorem Integral.mem_ids_iff (hg : g.Integral) {id : NodeId} :
    id ∈ g.ids ↔ (g.node? id).isSome := by
  constructor
  · intro hid
    obtain ⟨n, hn, rfl⟩ := List.mem_map.mp hid
    rw [hg.node?_id hn]
    rfl
  · intro hlive
    obtain ⟨n, hn⟩ := Option.isSome_iff_exists.mp hlive
    exact mem_ids_of_node? hg hn

theorem Integral.cells_getElem? (hg : g.Integral) (i : Nat) :
    g.cells[i]? = g.nodes[i]?.bind fun n => (g.type? n.type).map (Cell.ofNode n) := by
  refine getElem?_filterMap_of_isSome _ _ (fun n hn => ?_) i
  obtain ⟨type, htype⟩ := hg.type?_isSome hn
  simp [htype]

theorem Integral.cells_ids (hg : g.Integral) : g.cells.map Cell.id = g.ids := by
  apply List.ext_getElem?
  intro i
  rw [List.getElem?_map, hg.cells_getElem?, ids, List.getElem?_map]
  cases hn : g.nodes[i]? with
  | none => rfl
  | some n =>
    obtain ⟨type, htype⟩ := hg.type?_isSome (List.mem_of_getElem? hn)
    simp [htype, Cell.ofNode]

theorem Integral.nodes_cellIndex (hg : g.Integral) {id : NodeId} {n : Node β}
    (hn : g.node? id = some n) : g.nodes[g.cellIndex id]? = some n := by
  have hlt := List.idxOf_lt_length_of_mem (mem_ids_of_node? hg hn)
  have hid : (g.nodes.map Node.id)[g.cellIndex id]? = some id :=
    (List.getElem?_eq_getElem hlt).trans (congrArg some (List.getElem_idxOf hlt))
  rw [List.getElem?_map] at hid
  obtain ⟨m, hm, hmid⟩ := Option.map_eq_some_iff.mp hid
  have hfound := hg.node?_id (List.mem_of_getElem? hm)
  rw [hmid, hn] at hfound
  exact hm.trans hfound.symm

theorem Integral.cells_cellIndex (hg : g.Integral) {id : NodeId} {n : Node β} {type : NodeType β}
    (hn : g.node? id = some n) (htype : g.type? n.type = some type) :
    g.cells[g.cellIndex id]? = some (Cell.ofNode n type) := by
  rw [hg.cells_getElem?, hg.nodes_cellIndex hn]
  simp [htype]

/-- The node behind a cell. -/
theorem Integral.node?_of_cell (hg : g.Integral) {i : Nat} {cell : Cell}
    (hcell : g.cells[i]? = some cell) :
    ∃ n type, g.node? cell.id = some n ∧ g.type? n.type = some type ∧
      cell = Cell.ofNode n type ∧ g.cellIndex cell.id = i := by
  rw [hg.cells_getElem?, Option.bind_eq_some_iff] at hcell
  obtain ⟨n, hn, hcell⟩ := hcell
  obtain ⟨type, htype, rfl⟩ := Option.map_eq_some_iff.mp hcell
  refine ⟨n, type, hg.node?_id (List.mem_of_getElem? hn), htype, rfl, ?_⟩
  obtain ⟨hlt, hget⟩ := List.getElem?_eq_some_iff.mp hn
  have hlt' : i < g.ids.length := by simpa [ids] using hlt
  have hid : n.id = g.ids[i] := by simp [ids, hget]
  change g.cellIndex n.id = i
  rw [cellIndex, hid]
  exact hg.ids_nodup.idxOf_getElem i hlt'

theorem cellIndex_inj (hg : g.Integral) {a b : NodeId} {n : Node β} (hn : g.node? a = some n)
    (h : g.cellIndex a = g.cellIndex b) : a = b :=
  (List.idxOf_inj (mem_ids_of_node? hg hn)).mp h

theorem Integral.find?_wiring (hg : g.Integral) (connections : List Connection) {id : NodeId}
    {n : Node β} (hn : g.node? id = some n) :
    (g.wiringOf connections).find? id = some (g.cellIndex id) := by
  obtain ⟨type, htype⟩ := hg.type?_isSome (mem_nodes_of_node? hn)
  obtain ⟨hlt, _⟩ := List.getElem?_eq_some_iff.mp (hg.cells_cellIndex hn htype)
  refine List.findIdx?_eq_some_iff_findIdx_eq.mpr ⟨hlt, ?_⟩
  rw [cellIndex, ← hg.cells_ids, List.idxOf, List.findIdx_map]
  rfl

/-! ### Resolution -/

theorem cellsOf_eq (types : List (NodeType β)) (nodes : List (Node β))
    (h : ∀ n ∈ nodes, n.type.index < types.length) :
    Netlist.cellsOf types nodes =
      .ok (nodes.filterMap fun n => (types[n.type.index]?).map (Cell.ofNode n)) := by
  induction nodes with
  | nil => rfl
  | cons n nodes ih =>
    have hn := List.getElem?_eq_getElem (h n (by simp))
    have ih := ih fun m hm => h m (by simp [hm])
    rw [Netlist.cellsOf] at ih ⊢
    rw [List.mapM_cons, ih, hn]
    simp [hn, bind, Except.bind, pure, Except.pure]

/-- Resolution adds the edge of a connection that fits and whose input is free. -/
theorem Integral.connect_eq (hg : g.Integral) (done : List Connection) {c : Connection}
    (hc : c ∈ g.connections)
    (hfree : ∀ d ∈ done, d ∈ g.connections ∧
      (d.isDependency = true → c.isDependency = true →
        ¬(d.sink = c.sink ∧ d.sinkPort = c.sinkPort))) :
    (g.wiringOf done).connect c = .ok (g.wiringOf (done ++ [c])) := by
  obtain ⟨source, sink, carried, hsource, hsink, hcarried, hports⟩ := hg.fits c hc
  obtain ⟨n, hn, hntype⟩ := typeOf?_isSome hsource
  obtain ⟨m, hm, hmtype⟩ := typeOf?_isSome hsink
  have hsourceCell : (g.wiringOf done).cells[g.cellIndex c.source]? = _ :=
    hg.cells_cellIndex hn hntype
  have hsinkCell : (g.wiringOf done).cells[g.cellIndex c.sink]? = _ :=
    hg.cells_cellIndex hm hmtype
  -- an earlier edge into the same input would come from a second producer of it
  have hother (d : Connection) (hd : d ∈ done) (hdep : d.isDependency = true)
      (hsame : g.cellIndex d.sink = g.cellIndex c.sink) (hcdep : c.isDependency = true) :
      d.sinkPort ≠ c.sinkPort := by
    obtain ⟨hmem, hdiff⟩ := hfree d hd
    obtain ⟨_, dsink, _, _, hdsink, _⟩ := hg.fits d hmem
    obtain ⟨k, hk, _⟩ := typeOf?_isSome hdsink
    exact fun hport => hdiff hdep hcdep ⟨cellIndex_inj hg hk hsame, hport⟩
  rw [Netlist.connect, hg.find?_wiring done hn, hg.find?_wiring done hm, hcarried]
  cases carried with
  | loops =>
    simp [wiringOf, List.filterMap_append, dataEdge?, gateEdge?, hcarried]
  | data output input =>
    obtain ⟨port, expected, hport, hexpected, htype⟩ := hports
    have hcdep : c.isDependency = true := Connection.isDependency_iff.mpr (.inl ⟨_, _, hcarried⟩)
    obtain ⟨_, hsinkPort⟩ := Connection.ports_of_data hcarried
    have hfed : (g.wiringOf done).isFed (g.cellIndex c.sink) c.sinkPort = false := by
      rw [hsinkPort, Netlist.isFed, List.any_eq_false]
      intro e he hmatch
      obtain ⟨d, hd, hde⟩ := List.mem_filterMap.mp he
      obtain ⟨hdcarries, _, hdsink⟩ := dataEdge?_eq_some.mp hde
      simp only [Bool.and_eq_true, beq_iff_eq] at hmatch
      refine hother d hd (Connection.isDependency_iff.mpr (.inl ⟨_, _, hdcarries⟩))
        (hdsink.symm.trans hmatch.1) hcdep ?_
      rw [(Connection.ports_of_data hdcarries).2, hsinkPort, hmatch.2]
    simp only [hsourceCell, hsinkCell, Option.bind_some, Cell.ofNode, hexpected,
      Netlist.connect.joined, hport, hfed, ne_eq, htype, not_true_eq_false, if_false]
    simp [wiringOf, List.filterMap_append, dataEdge?, gateEdge?, hcarried]
  | gate output =>
    obtain ⟨port, hport, htype⟩ := hports
    have hcdep : c.isDependency = true := Connection.isDependency_iff.mpr (.inr ⟨_, hcarried⟩)
    obtain ⟨_, hsinkPort⟩ := Connection.ports_of_gate hcarried
    have hfed : (g.wiringOf done).isFed (g.cellIndex c.sink) c.sinkPort = false := by
      rw [hsinkPort, Netlist.isFed, List.any_eq_false]
      intro e he hmatch
      obtain ⟨d, hd, hde⟩ := List.mem_filterMap.mp he
      obtain ⟨hdcarries, _, hdsink⟩ := gateEdge?_eq_some.mp hde
      refine hother d hd (Connection.isDependency_iff.mpr (.inr ⟨_, hdcarries⟩))
        (hdsink.symm.trans (beq_iff_eq.mp hmatch)) hcdep ?_
      rw [(Connection.ports_of_gate hdcarries).2, hsinkPort]
    simp only [hsourceCell, Option.bind_some, Cell.ofNode, Netlist.connect.joined, hport, hfed,
      ne_eq, htype, not_true_eq_false, if_false]
    simp [wiringOf, List.filterMap_append, dataEdge?, gateEdge?, hcarried]

theorem Integral.foldlM_connect (hg : g.Integral) (done rest : List Connection)
    (h : done ++ rest = g.connections) :
    rest.foldlM Netlist.connect (g.wiringOf done) = .ok g.wiring := by
  induction rest generalizing done with
  | nil => rw [wiring, ← h, List.append_nil]; rfl
  | cons c rest ih =>
    have hc : c ∈ g.connections := by rw [← h]; simp
    have hsingle := hg.single_producer
    rw [dependencies, ← h, List.filter_append, List.pairwise_append] at hsingle
    have hfree (d : Connection) (hd : d ∈ done) : d ∈ g.connections ∧
        (d.isDependency = true → c.isDependency = true →
          ¬(d.sink = c.sink ∧ d.sinkPort = c.sinkPort)) := by
      constructor
      · rw [← h]
        simp [hd]
      · intro hdep hcdep
        exact hsingle.2.2 d (by simp [hd, hdep]) c (by simp [hcdep])
    rw [List.foldlM_cons, hg.connect_eq done hc hfree]
    exact ih (done ++ [c]) (by simpa using h)

/-- An integral graph resolves to its wiring. -/
theorem Integral.netlist_eq (hg : g.Integral) : g.netlist = .ok g.wiring := by
  rw [netlist, Netlist.resolve, cellsOf_eq _ _ hg.typed]
  exact hg.foldlM_connect [] g.connections rfl

theorem Integral.planFor_eq (hg : g.Integral) (config : CompileConfig) :
    g.planFor config = g.wiring.compile config := by
  rw [planFor, hg.netlist_eq]
  rfl

theorem exists_of_map_eq_ok {ε α γ : Type*} {result : Except ε α} {f : α → γ} {c : γ}
    (h : result.map f = .ok c) : ∃ a, result = .ok a ∧ f a = c := by
  cases result with
  | error e => cases h
  | ok a => exact ⟨a, rfl, Except.ok.inj h⟩

/-- A plan is laid out from the schedule of the wiring. -/
theorem Integral.planFor_eq_ok (hg : g.Integral) {config : CompileConfig} {p : Plan} :
    g.planFor config = .ok p ↔
      ∃ s, g.wiring.schedule config.defaultDevice = .ok s ∧ s.plan config = p := by
  rw [hg.planFor_eq, Netlist.compile]
  constructor
  · exact exists_of_map_eq_ok
  · rintro ⟨s, hs, rfl⟩
    rw [hs]
    rfl

theorem Integral.planFor_eq_error (hg : g.Integral) {config : CompileConfig} {e : CompileError} :
    g.planFor config = .error e ↔ g.wiring.schedule config.defaultDevice = .error e := by
  rw [hg.planFor_eq, Netlist.compile]
  cases g.wiring.schedule config.defaultDevice <;> simp [Except.map]

/-! ### Edges and connections -/

theorem mem_wiring_data {e : DataEdge} :
    e ∈ g.wiring.data ↔ ∃ c ∈ g.connections, c.carries? = some (.data e.output e.input) ∧
      e.source = g.cellIndex c.source ∧ e.sink = g.cellIndex c.sink := by
  simp only [wiring, wiringOf, List.mem_filterMap, dataEdge?_eq_some]

theorem mem_wiring_gates {e : GateEdge} :
    e ∈ g.wiring.gates ↔ ∃ c ∈ g.connections, c.carries? = some (.gate e.output) ∧
      e.source = g.cellIndex c.source ∧ e.sink = g.cellIndex c.sink := by
  simp only [wiring, wiringOf, List.mem_filterMap, gateEdge?_eq_some]

theorem Integral.ends_live (hg : g.Integral) {c : Connection} (hc : c ∈ g.connections) :
    (∃ n, g.node? c.source = some n) ∧ ∃ m, g.node? c.sink = some m := by
  obtain ⟨_, _, _, hsource, hsink, _⟩ := hg.fits c hc
  obtain ⟨n, hn, _⟩ := typeOf?_isSome hsource
  obtain ⟨m, hm, _⟩ := typeOf?_isSome hsink
  exact ⟨⟨n, hn⟩, ⟨m, hm⟩⟩

/-- Dependencies into the cell of one node come over different ports. -/
theorem Integral.ports_ne (hg : g.Integral) :
    g.connections.Pairwise fun c d => c.isDependency = true → d.isDependency = true →
      g.cellIndex c.sink = g.cellIndex d.sink → c.sinkPort ≠ d.sinkPort := by
  apply (List.pairwise_filter.mp hg.single_producer).imp_of_mem
  intro c d hc _ hne hcdep hddep hsame hport
  obtain ⟨_, m, hm⟩ := hg.ends_live hc
  exact hne hcdep hddep ⟨cellIndex_inj hg hm hsame, hport⟩

theorem Integral.wiring_sound (hg : g.Integral) : g.wiring.Sound := by
  refine ⟨?_, fun e he => ?_, fun e he => ?_, ?_, ?_⟩
  · change (g.cells.map Cell.id).Nodup
    rw [hg.cells_ids]
    exact hg.ids_nodup
  · obtain ⟨c, hc, hcarries, hsource, hsink⟩ := mem_wiring_data.mp he
    obtain ⟨source, sink, carried, hst, hkt, hcarried, hports⟩ := hg.fits c hc
    obtain rfl := Option.some.inj (hcarries.symm.trans hcarried)
    obtain ⟨n, hn, hntype⟩ := typeOf?_isSome hst
    obtain ⟨m, hm, hmtype⟩ := typeOf?_isSome hkt
    obtain ⟨port, expected, rest⟩ := hports
    exact ⟨_, _, port, expected, hsource ▸ hg.cells_cellIndex hn hntype,
      hsink ▸ hg.cells_cellIndex hm hmtype, rest⟩
  · obtain ⟨c, hc, hcarries, hsource, hsink⟩ := mem_wiring_gates.mp he
    obtain ⟨source, sink, carried, hst, hkt, hcarried, hports⟩ := hg.fits c hc
    obtain rfl := Option.some.inj (hcarries.symm.trans hcarried)
    obtain ⟨n, hn, hntype⟩ := typeOf?_isSome hst
    obtain ⟨m, hm, hmtype⟩ := typeOf?_isSome hkt
    obtain ⟨port, rest⟩ := hports
    exact ⟨_, _, port, hsource ▸ hg.cells_cellIndex hn hntype,
      hsink ▸ hg.cells_cellIndex hm hmtype, rest⟩
  · refine List.pairwise_filterMap.mpr (hg.ports_ne.imp fun {c d} hne e he f hf => ?_)
    obtain ⟨hce, _, hesink⟩ := dataEdge?_eq_some.mp he
    obtain ⟨hdf, _, hfsink⟩ := dataEdge?_eq_some.mp hf
    rintro ⟨hsink, hinput⟩
    refine hne (Connection.isDependency_iff.mpr (.inl ⟨_, _, hce⟩))
      (Connection.isDependency_iff.mpr (.inl ⟨_, _, hdf⟩)) (hesink ▸ hfsink ▸ hsink) ?_
    rw [(Connection.ports_of_data hce).2, (Connection.ports_of_data hdf).2, hinput]
  · refine List.pairwise_filterMap.mpr (hg.ports_ne.imp fun {c d} hne e he f hf hsink => ?_)
    obtain ⟨hce, _, hesink⟩ := gateEdge?_eq_some.mp he
    obtain ⟨hdf, _, hfsink⟩ := gateEdge?_eq_some.mp hf
    refine hne (Connection.isDependency_iff.mpr (.inr ⟨_, hce⟩))
      (Connection.isDependency_iff.mpr (.inr ⟨_, hdf⟩)) (hesink ▸ hfsink ▸ hsink) ?_
    rw [(Connection.ports_of_gate hce).2, (Connection.ports_of_gate hdf).2]

end Graph

end FrameGraph
