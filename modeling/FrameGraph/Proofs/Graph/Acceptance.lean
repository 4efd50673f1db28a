import FrameGraph.Proofs.Graph.Freshness
import FrameGraph.Proofs.Plan.Acceptance

/-! Which graphs compile. The three checks of scheduling are stated here of nodes and
connections: a live node may lack a connection into a required input, the data and gate
connections may run in a circle, and an unpinned node may have producers whose devices
differ. Numbering the cells of the live nodes carries each of them over to the netlist
and back, so the answer of a compilation is decided by the first that applies, and a
graph to which none applies compiles. -/

namespace FrameGraph

namespace Graph

variable {β : Type} {g : Graph β}

/-- The live node at a place has a required input without a connection into it. -/
structure Missing (g : Graph β) (i : Nat) (node : Node β) (input : Nat) (port : InputPort) :
    Prop where
  live : g.nodes[i]? = some node
  hasPort : ((g.type? node.type).bind fun type => type.inputs[input]?) = some port
  required : port.isOptional = false
  unfed : ∀ c ∈ g.connections, ¬(c.sink = node.id ∧ c.sinkPort = .data input)

/-- The first live node with a missing input, and the first that it misses. -/
def FirstMissing (g : Graph β) (node : Node β) (port : InputPort) : Prop :=
  ∃ i input, g.Missing i node input port ∧ ∀ j node' other port',
    g.Missing j node' other port' → i < j ∨ i = j ∧ input ≤ other

/-- Every required input of a live node has a connection into it. -/
def IsComplete (g : Graph β) : Prop := ∀ i node input port, ¬g.Missing i node input port

def Feeds (g : Graph β) (a b : NodeId) : Prop := ∃ c ∈ g.dependencies, c.source = a ∧ c.sink = b

def FeedsData (g : Graph β) (a b : NodeId) : Prop :=
  ∃ c ∈ g.connections, (∃ output input, c.carries? = some (.data output input)) ∧
    c.source = a ∧ c.sink = b

def IsCyclic (g : Graph β) : Prop := ∃ id, Relation.TransGen g.Feeds id id

/-- The device that a node resolves to: its own, else that of all its data producers, else the
default. -/
def Resolves (g : Graph β) (fallback : Device) : NodeId → Device → Prop :=
  Devices.Resolves (fun id => (g.node? id).bind Node.device) g.FeedsData fallback

/-- An unpinned live node has data producers that resolve to different devices. -/
def HasConflict (g : Graph β) (fallback : Device) : Prop :=
  ∃ n ∈ g.nodes, n.device = none ∧ ∃ p q d e, g.FeedsData p n.id ∧ g.FeedsData q n.id ∧
    g.Resolves fallback p d ∧ g.Resolves fallback q e ∧ d ≠ e

/-! ### Missing inputs -/

theorem Integral.carries_of_sinkPort (hg : g.Integral) {c : Connection} (hc : c ∈ g.connections)
    {input : Nat} (h : c.sinkPort = .data input) :
    ∃ output, c.carries? = some (.data output input) := by
  obtain ⟨_, _, carried, _, _, hcarried, _⟩ := hg.fits c hc
  cases carried with
  | data output other =>
    obtain rfl : other = input :=
      Port.data.inj ((Connection.ports_of_data hcarried).2.symm.trans h)
    exact ⟨output, hcarried⟩
  | loops => exact nomatch (Connection.ports_of_loops hcarried).2.symm.trans h
  | gate output => exact nomatch (Connection.ports_of_gate hcarried).2.symm.trans h

theorem Integral.missing_iff (hg : g.Integral) {i input : Nat} {cell : Cell} {port : InputPort} :
    g.wiring.Missing i cell input port ↔ ∃ node type, g.type? node.type = some type ∧
      cell = Cell.ofNode node type ∧ g.Missing i node input port := by
  have hunfed {node : Node β} (hnode : g.nodes[i]? = some node) :
      (∀ e ∈ g.wiring.data, ¬(e.sink = i ∧ e.input = input)) ↔
        ∀ c ∈ g.connections, ¬(c.sink = node.id ∧ c.sinkPort = .data input) := by
    have hindex : g.cellIndex node.id = i := by
      obtain ⟨type, htype⟩ := hg.type?_isSome (List.mem_of_getElem? hnode)
      have hcell : g.cells[i]? = some (Cell.ofNode node type) := by
        rw [hg.cells_getElem?, hnode, Option.bind_some, htype, Option.map_some]
      obtain ⟨_, _, _, _, _, hi⟩ := hg.node?_of_cell hcell
      exact hi
    constructor
    · rintro h c hc ⟨hsink, hport⟩
      obtain ⟨output, hcarries⟩ := hg.carries_of_sinkPort hc hport
      exact h ⟨g.cellIndex c.source, output, g.cellIndex c.sink, input⟩
        (mem_wiring_data.mpr ⟨c, hc, hcarries, rfl, rfl⟩) ⟨hsink ▸ hindex, rfl⟩
    · rintro h e he ⟨hsink, hinput⟩
      obtain ⟨c, hc, hcarries, _, hesink⟩ := mem_wiring_data.mp he
      obtain ⟨_, m, hm⟩ := hg.ends_live hc
      refine h c hc ⟨cellIndex_inj hg hm (hesink.symm.trans (hsink.trans hindex.symm)), ?_⟩
      rw [(Connection.ports_of_data hcarries).2, hinput]
  constructor
  · intro h
    obtain ⟨node, hnode, hcell⟩ := Option.bind_eq_some_iff.mp
      ((hg.cells_getElem? i).symm.trans h.hasCell)
    obtain ⟨type, htype, rfl⟩ := Option.map_eq_some_iff.mp hcell
    refine ⟨node, type, htype, rfl, hnode, ?_, h.required, (hunfed hnode).mp h.unfed⟩
    rw [htype]
    exact h.hasPort
  · rintro ⟨node, type, htype, rfl, h⟩
    have hport := h.hasPort
    rw [htype] at hport
    refine ⟨?_, hport, h.required, (hunfed h.live).mpr h.unfed⟩
    change g.cells[i]? = _
    rw [hg.cells_getElem?, h.live, Option.bind_some, htype, Option.map_some]

theorem Integral.missing_cell (hg : g.Integral) {i input : Nat} {node : Node β} {port : InputPort}
    (h : g.Missing i node input port) :
    ∃ cell, cell.name = node.name ∧ g.wiring.Missing i cell input port := by
  obtain ⟨type, htype⟩ := hg.type?_isSome (List.mem_of_getElem? h.live)
  exact ⟨_, rfl, hg.missing_iff.mpr ⟨node, type, htype, rfl, h⟩⟩

theorem Integral.missing?_eq_none (hg : g.Integral) :
    g.wiring.missing? = none ↔ g.IsComplete := by
  rw [Netlist.missing?_eq_none]
  constructor
  · intro h i node input port hmissing
    obtain ⟨cell, _, hcell⟩ := hg.missing_cell hmissing
    exact h i cell input port hcell
  · intro h i cell input port hmissing
    obtain ⟨node, _, _, _, hnode⟩ := hg.missing_iff.mp hmissing
    exact h i node input port hnode

theorem Integral.missing?_eq_some (hg : g.Integral) (name portName : String) :
    (∃ cell port, g.wiring.missing? = some (cell, port) ∧ cell.name = name ∧ port.name = portName) ↔
      ∃ node port, g.FirstMissing node port ∧ node.name = name ∧ port.name = portName := by
  simp only [Netlist.missing?_eq_some]
  constructor
  · rintro ⟨cell, port, ⟨i, input, hmissing, hfirst⟩, hname, hport⟩
    obtain ⟨node, type, htype, rfl, hnode⟩ := hg.missing_iff.mp hmissing
    refine ⟨node, port, ⟨i, input, hnode, fun j node' other port' hother => ?_⟩, hname, hport⟩
    obtain ⟨cell', _, hcell'⟩ := hg.missing_cell hother
    exact hfirst j cell' other port' hcell'
  · rintro ⟨node, port, ⟨i, input, hmissing, hfirst⟩, hname, hport⟩
    obtain ⟨cell, hcellname, hcell⟩ := hg.missing_cell hmissing
    refine ⟨cell, port, ⟨i, input, hcell, fun j cell' other port' hother => ?_⟩,
      hcellname.trans hname, hport⟩
    obtain ⟨node', _, _, _, hnode'⟩ := hg.missing_iff.mp hother
    exact hfirst j node' other port' hnode'

/-! ### Cycles -/

theorem joined_wiring {a b : Nat} :
    Waves.Joined g.wiring.dependencies a b ↔
      ∃ c ∈ g.dependencies, g.cellIndex c.source = a ∧ g.cellIndex c.sink = b := by
  rw [Netlist.joined_dependencies]
  constructor
  · rintro (⟨e, he, rfl, rfl⟩ | ⟨e, he, rfl, rfl⟩)
    · obtain ⟨c, hc, hcarries, hsource, hsink⟩ := mem_wiring_data.mp he
      exact ⟨c, List.mem_filter.mpr ⟨hc, Connection.isDependency_iff.mpr (.inl ⟨_, _, hcarries⟩)⟩,
        hsource.symm, hsink.symm⟩
    · obtain ⟨c, hc, hcarries, hsource, hsink⟩ := mem_wiring_gates.mp he
      exact ⟨c, List.mem_filter.mpr ⟨hc, Connection.isDependency_iff.mpr (.inr ⟨_, hcarries⟩)⟩,
        hsource.symm, hsink.symm⟩
  · rintro ⟨c, hc, rfl, rfl⟩
    obtain ⟨hmem, hdep⟩ := List.mem_filter.mp hc
    rcases Connection.isDependency_iff.mp hdep with ⟨output, input, hcarries⟩ | ⟨output, hcarries⟩
    · exact .inl ⟨⟨g.cellIndex c.source, output, g.cellIndex c.sink, input⟩,
        mem_wiring_data.mpr ⟨c, hmem, hcarries, rfl, rfl⟩, rfl, rfl⟩
    · exact .inr ⟨⟨g.cellIndex c.source, output, g.cellIndex c.sink⟩,
        mem_wiring_gates.mpr ⟨c, hmem, hcarries, rfl, rfl⟩, rfl, rfl⟩

theorem mem_connections_of_dependency {c : Connection} (hc : c ∈ g.dependencies) :
    c ∈ g.connections :=
  (List.mem_filter.mp hc).1

/-- A path of cells is the path of their nodes. -/
theorem Integral.transGen_wiring (hg : g.Integral) {a b : Nat}
    (h : Relation.TransGen (Waves.Joined g.wiring.dependencies) a b) :
    ∃ x y n, g.node? x = some n ∧ g.cellIndex x = a ∧ g.cellIndex y = b ∧
      Relation.TransGen g.Feeds x y := by
  induction h with
  | single hr =>
    obtain ⟨c, hc, hsource, hsink⟩ := joined_wiring.mp hr
    obtain ⟨⟨n, hn⟩, _⟩ := hg.ends_live (mem_connections_of_dependency hc)
    exact ⟨c.source, c.sink, n, hn, hsource, hsink, .single ⟨c, hc, rfl, rfl⟩⟩
  | tail _ hr ih =>
    obtain ⟨x, y, n, hn, hx, hy, hpath⟩ := ih
    obtain ⟨c, hc, hsource, hsink⟩ := joined_wiring.mp hr
    obtain ⟨⟨m, hm⟩, _⟩ := hg.ends_live (mem_connections_of_dependency hc)
    obtain rfl := cellIndex_inj hg hm (hsource.trans hy.symm)
    exact ⟨x, c.sink, n, hn, hx, hsink, hpath.tail ⟨c, hc, rfl, rfl⟩⟩

theorem Integral.isCyclic_iff (hg : g.Integral) : g.wiring.IsCyclic ↔ g.IsCyclic := by
  constructor
  · rintro ⟨i, hi⟩
    obtain ⟨x, y, n, hn, hx, hy, hpath⟩ := hg.transGen_wiring hi
    obtain rfl := cellIndex_inj hg hn (hx.trans hy.symm)
    exact ⟨x, hpath⟩
  · rintro ⟨id, hid⟩
    refine ⟨g.cellIndex id, hid.lift g.cellIndex ?_⟩
    rintro a b ⟨c, hc, rfl, rfl⟩
    exact joined_wiring.mpr ⟨c, hc, rfl, rfl⟩

/-! ### Devices -/

theorem mem_producers_wiring {p i : Nat} :
    p ∈ g.wiring.producers i ↔ ∃ c ∈ g.connections,
      (∃ output input, c.carries? = some (.data output input)) ∧ g.cellIndex c.source = p ∧
        g.cellIndex c.sink = i := by
  rw [Netlist.mem_producers]
  constructor
  · rintro ⟨e, he, rfl, rfl⟩
    obtain ⟨c, hc, hcarries, hsource, hsink⟩ := mem_wiring_data.mp he
    exact ⟨c, hc, ⟨_, _, hcarries⟩, hsource.symm, hsink.symm⟩
  · rintro ⟨c, hc, ⟨output, input, hcarries⟩, rfl, rfl⟩
    exact ⟨⟨g.cellIndex c.source, output, g.cellIndex c.sink, input⟩,
      mem_wiring_data.mpr ⟨c, hc, hcarries, rfl, rfl⟩, rfl, rfl⟩

theorem Integral.pinned?_cellIndex (hg : g.Integral) (id : NodeId) :
    g.wiring.pinned? (g.cellIndex id) = (g.node? id).bind Node.device := by
  change (g.cells[g.cellIndex id]?).bind Cell.pinned = _
  cases hn : g.node? id with
  | some n =>
    obtain ⟨type, htype⟩ := hg.type?_isSome (mem_nodes_of_node? hn)
    rw [hg.cells_cellIndex hn htype]
    rfl
  | none =>
    have hdead : id ∉ g.ids := by
      intro hid
      obtain ⟨n, hmem, rfl⟩ := List.mem_map.mp hid
      exact nomatch hn.symm.trans (hg.node?_id hmem)
    have hlength : g.ids.length ≤ g.cellIndex id := (List.idxOf_eq_length hdead).ge
    rw [← hg.cells_ids, List.length_map] at hlength
    rw [List.getElem?_eq_none hlength]
    rfl

theorem Integral.resolves_iff (hg : g.Integral) {fallback d : Device} {id : NodeId} :
    g.wiring.Resolves fallback (g.cellIndex id) d ↔ g.Resolves fallback id d := by
  refine Devices.Resolves.map_iff g.cellIndex hg.pinned?_cellIndex (fun p i hp => ?_)
    fun q i hq => ?_
  · obtain ⟨c, hc, hcarries, rfl, rfl⟩ := hp
    exact mem_producers_wiring.mpr ⟨c, hc, hcarries, rfl, rfl⟩
  · obtain ⟨c, hc, hcarries, hsource, hsink⟩ := mem_producers_wiring.mp hq
    obtain ⟨_, m, hm⟩ := hg.ends_live hc
    exact ⟨c.source, hsource, c, hc, hcarries, rfl, cellIndex_inj hg hm hsink⟩

theorem Integral.hasConflict_iff (hg : g.Integral) (fallback : Device) :
    g.wiring.HasConflict fallback ↔ g.HasConflict fallback := by
  constructor
  · rintro ⟨i, hpinned, p, hp, q, hq, d, e, hd, he, hne⟩
    obtain ⟨c, hc, hcarries, rfl, rfl⟩ := mem_producers_wiring.mp hp
    obtain ⟨c', hc', hcarries', rfl, hsink⟩ := mem_producers_wiring.mp hq
    obtain ⟨_, m, hm⟩ := hg.ends_live hc
    obtain ⟨_, m', hm'⟩ := hg.ends_live hc'
    have hsame := cellIndex_inj hg hm' hsink
    rw [hg.pinned?_cellIndex, hm] at hpinned
    have hid := hg.id_eq _ m hm
    refine ⟨m, mem_nodes_of_node? hm, hpinned, c.source, c'.source, d, e,
      ⟨c, hc, hcarries, rfl, hid.symm⟩, ⟨c', hc', hcarries', rfl, hsame.trans hid.symm⟩,
      hg.resolves_iff.mp hd, hg.resolves_iff.mp he, hne⟩
  · rintro ⟨n, hn, hpinned, p, q, d, e, ⟨c, hc, hcarries, rfl, hsink⟩,
      ⟨c', hc', hcarries', rfl, hsink'⟩, hd, he, hne⟩
    refine ⟨g.cellIndex n.id, ?_, _, mem_producers_wiring.mpr ⟨c, hc, hcarries, rfl, by rw [hsink]⟩,
      _, mem_producers_wiring.mpr ⟨c', hc', hcarries', rfl, by rw [hsink']⟩, d, e,
      hg.resolves_iff.mpr hd, hg.resolves_iff.mpr he, hne⟩
    rw [hg.pinned?_cellIndex, hg.node?_id hn]
    exact hpinned

/-! ### The answer of a compilation -/

/-- Compilation does not see loop connections. -/
theorem Integral.planFor_dependencies (hg : g.Integral) (config : CompileConfig) :
    ({ g with connections := g.dependencies } : Graph β).planFor config = g.planFor config := by
  have hintegral : ({ g with connections := g.dependencies } : Graph β).Integral := by
    refine hg.of_connections g.isOutdated
      (fun c hc => hg.fits c (mem_connections_of_dependency hc)) (hg.connections_nodup.filter _) ?_
    have hself : g.dependencies.filter Connection.isDependency = g.dependencies :=
      List.filter_eq_self.mpr fun c hc => (List.mem_filter.mp hc).2
    rw [hself]
    exact hg.single_producer
  have hwiring : ({ g with connections := g.dependencies } : Graph β).wiring = g.wiring := by
    have hkeep {γ : Type} (f : Connection → Option γ)
        (hf : ∀ c : Connection, c.isDependency = false → f c = none) :
        g.dependencies.filterMap f = g.connections.filterMap f :=
      filterMap_filter_of_none f _ _ fun c _ hc => hf c hc
    change (⟨g.cells, g.dependencies.filterMap g.dataEdge?,
      g.dependencies.filterMap g.gateEdge?⟩ : Netlist) = g.wiring
    rw [hkeep _ fun c hc => (edges_of_not_dependency hc).1,
      hkeep _ fun c hc => (edges_of_not_dependency hc).2]
    rfl
  rw [hintegral.planFor_eq, hwiring, ← hg.planFor_eq]

/-- The first check that fails decides the answer. -/
theorem Integral.planFor_cases (hg : g.Integral) (config : CompileConfig) :
    (∃ cell port, g.wiring.missing? = some (cell, port) ∧ ¬g.IsComplete ∧
      g.planFor config = .error (.missingInput cell.name port.name)) ∨
    (g.IsComplete ∧ g.IsCyclic ∧ ∃ names, g.planFor config = .error (.cycle names)) ∨
    (g.IsComplete ∧ ¬g.IsCyclic ∧ g.HasConflict config.defaultDevice ∧
      ∃ name devices, g.planFor config = .error (.deviceConflict name devices)) ∨
    (g.IsComplete ∧ ¬g.IsCyclic ∧ ¬g.HasConflict config.defaultDevice ∧
      ∃ plan, g.planFor config = .ok plan) := by
  rw [hg.planFor_eq, Netlist.compile, ← hg.missing?_eq_none, ← hg.isCyclic_iff,
    ← hg.hasConflict_iff]
  rcases Netlist.schedule_cases hg.wiring_sound config.defaultDevice with
    ⟨cell, port, hmissing, h⟩ | ⟨hcomplete, hcyclic, names, h⟩ |
    ⟨hcomplete, hcyclic, hconflict, name, devices, h⟩ | ⟨hcomplete, hcyclic, hconflict, s, h⟩
  · exact .inl ⟨cell, port, hmissing, by simp [hmissing], by rw [h]; rfl⟩
  · exact .inr (.inl ⟨hcomplete, hcyclic, names, by rw [h]; rfl⟩)
  · exact .inr (.inr (.inl ⟨hcomplete, hcyclic, hconflict, name, devices, by rw [h]; rfl⟩))
  · exact .inr (.inr (.inr ⟨hcomplete, hcyclic, hconflict, _, by rw [h]; rfl⟩))

/-- A missing input is reported with the names of the first node that lacks one and of the first
input that it lacks. -/
theorem Integral.missingInput_iff (hg : g.Integral) (config : CompileConfig)
    (name portName : String) :
    g.planFor config = .error (.missingInput name portName) ↔
      ∃ node port, g.FirstMissing node port ∧ node.name = name ∧ port.name = portName := by
  rw [← hg.missing?_eq_some]
  rcases hg.planFor_cases config with ⟨cell, port, hmissing, _, h⟩ | hcases
  · rw [h]
    constructor
    · intro heq
      obtain ⟨rfl, rfl⟩ := CompileError.missingInput.inj (Except.error.inj heq)
      exact ⟨cell, port, hmissing, rfl, rfl⟩
    · rintro ⟨cell', port', hmissing', rfl, rfl⟩
      obtain ⟨rfl, rfl⟩ := Prod.mk.inj (Option.some.inj (hmissing.symm.trans hmissing'))
      rfl
  · have hcomplete : g.IsComplete := by rcases hcases with h | h | h <;> exact h.1
    constructor
    · intro heq
      rcases hcases with ⟨_, _, _, h⟩ | ⟨_, _, _, _, _, h⟩ | ⟨_, _, _, _, h⟩ <;>
        exact nomatch h.symm.trans heq
    · rintro ⟨cell, port, hmissing, _⟩
      exact nomatch hmissing.symm.trans (hg.missing?_eq_none.mpr hcomplete)

theorem Integral.sort_steps (hg : g.Integral) (devices : List Device) {first : List (List Nat)}
    (h : Waves.sort g.wiring.cells.length g.wiring.dependencies = .ok first) :
    ∃ waves, Waves.sort (Layout.stepCount ⟨g.wiring, devices⟩)
      (Layout.stepEdges ⟨g.wiring, devices⟩) = .ok waves := by
  have hsound : (Layout.mk g.wiring devices).net.Sound := hg.wiring_sound
  exact Layout.sort_steps hsound h

/-- A reachable graph fails to compile over a missing input exactly when some live node lacks one,
and then names the first; else over a cycle exactly when its dependencies have one; else over
devices exactly when an unpinned node has producers that resolve to different ones; else it
compiles. Loop connections change nothing, and sorting the steps never fails. -/
theorem Reachable.planFor_outcome [Behavior β] (hg : Reachable g) (config : CompileConfig) :
    (∀ name portName, g.planFor config = .error (.missingInput name portName) ↔
      ∃ node port, g.FirstMissing node port ∧ node.name = name ∧ port.name = portName) ∧
    ((∃ name portName, g.planFor config = .error (.missingInput name portName)) ↔
      ¬g.IsComplete) ∧
    ((∃ names, g.planFor config = .error (.cycle names)) ↔ g.IsComplete ∧ g.IsCyclic) ∧
    ((∃ name devices, g.planFor config = .error (.deviceConflict name devices)) ↔
      g.IsComplete ∧ ¬g.IsCyclic ∧ g.HasConflict config.defaultDevice) ∧
    ((∃ plan, g.planFor config = .ok plan) ↔
      g.IsComplete ∧ ¬g.IsCyclic ∧ ¬g.HasConflict config.defaultDevice) ∧
    ({ g with connections := g.dependencies } : Graph β).planFor config = g.planFor config ∧
    ∃ net, g.netlist = .ok net ∧ ∀ first devices,
      Waves.sort net.cells.length net.dependencies = .ok first →
      ∃ waves, Waves.sort (Layout.stepCount ⟨net, devices⟩) (Layout.stepEdges ⟨net, devices⟩) =
        .ok waves := by
  have hi := hg.integral
  refine ⟨hi.missingInput_iff config, ?_, ?_, ?_, ?_, hi.planFor_dependencies config,
    g.wiring, hi.netlist_eq, fun _ devices hfirst => hi.sort_steps devices hfirst⟩
  all_goals
    rcases hi.planFor_cases config with ⟨_, _, _, hcomplete, h⟩ | ⟨hcomplete, hcyclic, _, h⟩ |
      ⟨hcomplete, hcyclic, hconflict, _, _, h⟩ | ⟨hcomplete, hcyclic, hconflict, _, h⟩ <;>
    simp_all

def chainClosed : Graph Script :=
  (Command.run chain (.connect ⟨⟨2⟩, .data 0, ⟨0⟩, .data 0⟩)).graph

/-- The chain compiles; closed, it has a cycle and does not. -/
theorem chain_outcome : Reachable chain ∧ Reachable chainClosed ∧
    (chain.IsComplete ∧ ¬chain.IsCyclic ∧ ¬chain.HasConflict .primary) ∧
    (chainClosed.IsComplete ∧ chainClosed.IsCyclic) := by
  have hclosed : Reachable chainClosed := chain_reachable.run _
  have hopen : (chain.planFor {}).isOk = true := by decide +kernel
  have hcycle : chainClosed.planFor {} =
      .error (.cycle ["second", "third", "first", "second"]) := by decide +kernel
  refine ⟨chain_reachable, hclosed, ?_, ?_⟩
  · obtain ⟨_, _, _, _, hok, _⟩ := chain_reachable.planFor_outcome {}
    refine hok.mp ?_
    cases h : chain.planFor {} with
    | ok plan => exact ⟨plan, rfl⟩
    | error e => rw [h] at hopen; exact nomatch hopen
  · obtain ⟨_, _, hcyclic, _⟩ := hclosed.planFor_outcome {}
    exact hcyclic.mp ⟨_, hcycle⟩

end Graph

end FrameGraph
