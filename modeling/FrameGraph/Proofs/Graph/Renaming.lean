import FrameGraph.Proofs.Graph.Freshness
import FrameGraph.Proofs.Plan.Relabeling

/-! Gaps in the numbers of nodes. A removed node leaves its number unused for good, so graphs that
look alike may differ in the numbers of their live nodes. Compilation sees the order of these
numbers and nothing else of them: graphs that correspond under an increasing renaming of
the live nodes have the same wiring up to the names of cells, and so plans that
correspond under the same renaming, or the same error. -/

namespace FrameGraph

variable {β : Type}

def Connection.rename (ρ : NodeId → NodeId) (c : Connection) : Connection :=
  { c with source := ρ c.source, sink := ρ c.sink }

@[simp] theorem Connection.rename_id : Connection.rename id = id := rfl

/-- Nodes that compilation can tell apart by their numbers and by their devices alone. -/
structure Node.Alike (types : List (NodeType β)) (n m : Node β) : Prop where
  name : m.name = n.name
  type : m.type = n.type
  params : ∀ type, types[n.type.index]? = some type → ∀ name ∈ type.pipelineParams,
    m.params.get? name = n.params.get? name

/-- Nodes that are alike have cells that differ in their numbers and in their devices. -/
theorem Node.Alike.ofNode {types : List (NodeType β)} {n m : Node β} (ha : n.Alike types m)
    {type : NodeType β} (htype : types[n.type.index]? = some type) :
    Cell.ofNode m type = { Cell.ofNode n type with id := m.id, pinned := m.device } := by
  have hparams : (type.pipelineParams.map fun name => (name, (m.params.get? name).getD .empty)) =
      type.pipelineParams.map fun name => (name, (n.params.get? name).getD .empty) :=
    List.map_congr_left fun name hname => by rw [ha.params type htype name hname]
  rw [Cell.ofNode, ha.name, ha.type, hparams, Cell.ofNode]

namespace Graph

/-- The live nodes of two graphs correspond under a renaming that keeps their order, and so do their
connections. Their devices may differ. -/
structure Corresponds (ρ : NodeId → NodeId) (g h : Graph β) : Prop where
  types : h.types = g.types
  node : ∀ id n, g.node? id = some n → ∃ m, h.node? (ρ id) = some m ∧ n.Alike g.types m
  onto : ∀ b, (h.node? b).isSome → ∃ a, (g.node? a).isSome ∧ ρ a = b
  increasing : ∀ a b, (g.node? a).isSome → (g.node? b).isSome → a.index < b.index →
    (ρ a).index < (ρ b).index
  connections : h.connections = g.connections.map (Connection.rename ρ)

/-- The graphs differ in the numbers of their nodes alone, as far as compilation is concerned. -/
structure Renames (ρ : NodeId → NodeId) (g h : Graph β) : Prop extends Corresponds ρ g h where
  device : ∀ id, (g.node? id).isSome →
    (h.node? (ρ id)).bind Node.device = (g.node? id).bind Node.device

/-- The device to which the node of a cell is pinned under its other name. -/
def pinOf (ρ : NodeId → NodeId) (h : Graph β) (c : Cell) : Option Device :=
  (h.node? (ρ c.id)).bind Node.device

variable {g h : Graph β} {ρ : NodeId → NodeId}

/-! ### Cells and edges -/

namespace Corresponds

variable (hc : Corresponds ρ g h) (hg : g.Integral) (hh : h.Integral)
include hc hg hh

/-- Live nodes that correspond are declared at the same places. -/
theorem ids_eq : h.ids = g.ids.map ρ := by
  have hsorted : (g.ids.map ρ).Pairwise fun a b => a.index < b.index :=
    List.pairwise_map.mpr (hg.ids_sorted.imp_of_mem fun ha hb hlt =>
      hc.increasing _ _ (hg.mem_ids_iff.mp ha) (hg.mem_ids_iff.mp hb) hlt)
  have hmem (b : NodeId) : b ∈ h.ids ↔ b ∈ g.ids.map ρ := by
    rw [hh.mem_ids_iff, List.mem_map]
    constructor
    · intro hlive
      obtain ⟨a, ha, rfl⟩ := hc.onto b hlive
      exact ⟨a, hg.mem_ids_iff.mpr ha, rfl⟩
    · rintro ⟨a, ha, rfl⟩
      obtain ⟨n, hn⟩ := Option.isSome_iff_exists.mp (hg.mem_ids_iff.mp ha)
      obtain ⟨m, hm, _⟩ := hc.node a n hn
      rw [hm]
      rfl
  have hperm : h.ids.Perm (g.ids.map ρ) :=
    (List.perm_ext_iff_of_nodup hh.ids_nodup (nodup_of_sorted hsorted)).mpr hmem
  exact hperm.eq_of_pairwise (fun a b _ _ hab hba => absurd hab (Nat.lt_asymm hba)) hh.ids_sorted
    hsorted

theorem cellIndex_eq {id : NodeId} {n : Node β} (hn : g.node? id = some n) :
    h.cellIndex (ρ id) = g.cellIndex id := by
  have hlt : g.cellIndex id < g.ids.length := List.idxOf_lt_length_of_mem (mem_ids_of_node? hg hn)
  have hget : g.ids[g.cellIndex id] = id := List.getElem_idxOf hlt
  have hrenamed : h.ids[g.cellIndex id]? = some (ρ id) := by
    rw [hc.ids_eq hg hh, List.getElem?_map, List.getElem?_eq_getElem hlt, hget]
    rfl
  obtain ⟨hlt', hget'⟩ := List.getElem?_eq_some_iff.mp hrenamed
  rw [cellIndex, ← hget']
  exact hh.ids_nodup.idxOf_getElem _ hlt'

theorem cells_eq : h.cells = g.cells.map (Cell.relabel ρ (h.pinOf ρ)) := by
  refine List.ext_getElem? fun i => ?_
  have hplace : h.nodes[i]?.map Node.id = (g.nodes[i]?.map Node.id).map ρ := by
    have hids := congrArg (·[i]?) (hc.ids_eq hg hh)
    simpa only [ids, List.getElem?_map] using hids
  rw [List.getElem?_map, hh.cells_getElem?, hg.cells_getElem?]
  cases hn : g.nodes[i]? with
  | none =>
    rw [hn, Option.map_none, Option.map_none, Option.map_eq_none_iff] at hplace
    rw [hplace]
    rfl
  | some n =>
    rw [hn, Option.map_some, Option.map_some] at hplace
    obtain ⟨m, hm, hid⟩ := Option.map_eq_some_iff.mp hplace
    have hlive := hh.node?_id (List.mem_of_getElem? hm)
    rw [hid] at hlive
    obtain ⟨type, htype⟩ := hg.type?_isSome (List.mem_of_getElem? hn)
    obtain ⟨_, hm', ha⟩ := hc.node _ n (hg.node?_id (List.mem_of_getElem? hn))
    obtain rfl := Option.some.inj (hlive.symm.trans hm')
    have htype' : h.type? m.type = some type := by rw [type?, hc.types, ha.type]; exact htype
    have hpin : h.pinOf ρ (Cell.ofNode n type) = m.device :=
      (congrArg (·.bind Node.device) hlive).trans (Option.bind_some ..)
    simp only [hm, htype', htype, Option.bind_some, Option.map_some, ha.ofNode htype, hid,
      Cell.relabel, hpin]
    rfl

/-- Edges are between the numbers of cells, where the names of their nodes do not show. -/
theorem wiring_eq : h.wiring = g.wiring.relabel ρ (h.pinOf ρ) := by
  have hedges (c : Connection) (hconn : c ∈ g.connections) :
      h.dataEdge? (c.rename ρ) = g.dataEdge? c ∧ h.gateEdge? (c.rename ρ) = g.gateEdge? c := by
    obtain ⟨⟨_, hsource⟩, _, hsink⟩ := hg.ends_live hconn
    have hcarries : (c.rename ρ).carries? = c.carries? := rfl
    have hends : h.cellIndex (c.rename ρ).source = g.cellIndex c.source ∧
        h.cellIndex (c.rename ρ).sink = g.cellIndex c.sink :=
      ⟨hc.cellIndex_eq hg hh hsource, hc.cellIndex_eq hg hh hsink⟩
    simp only [dataEdge?, gateEdge?, hcarries, hends, and_self]
  have hdata : g.connections.filterMap (h.dataEdge? ∘ Connection.rename ρ) =
      g.connections.filterMap g.dataEdge? :=
    List.filterMap_congr fun c hconn => (hedges c hconn).1
  have hgates : g.connections.filterMap (h.gateEdge? ∘ Connection.rename ρ) =
      g.connections.filterMap g.gateEdge? :=
    List.filterMap_congr fun c hconn => (hedges c hconn).2
  rw [wiring, wiringOf, hc.cells_eq hg hh, hc.connections, List.filterMap_map, List.filterMap_map,
    hdata, hgates]
  rfl

end Corresponds

/-! ### Reachable graphs -/

/-- Reachable graphs that correspond under an increasing renaming of the live nodes compile to plans
that correspond under it, or fail with the same error. -/
theorem Reachable.planFor_rename [Behavior β] (hg : Reachable g) (hh : Reachable h)
    (hr : Renames ρ g h) (config : CompileConfig) :
    h.planFor config = (g.planFor config).map (Plan.rename ρ) := by
  have hi := hg.integral
  have hpin (c : Cell) (hcell : c ∈ g.wiring.cells) : h.pinOf ρ c = c.pinned := by
    obtain ⟨i, hi'⟩ := List.mem_iff_getElem?.mp hcell
    obtain ⟨n, type, hn, _, hof, _⟩ := hi.node?_of_cell hi'
    have hdevice := hr.device c.id (by rw [hn]; rfl)
    rw [hn, Option.bind_some] at hdevice
    rw [pinOf, hdevice, hof]
    rfl
  have hschedule := g.wiring.schedule_relabel ρ (h.pinOf ρ) fun first _ =>
    g.wiring.infer_relabel ρ hpin config.defaultDevice first.flatten
  rw [hi.planFor_eq, hh.integral.planFor_eq, hr.wiring_eq hi hh.integral, Netlist.compile,
    Netlist.compile, hschedule]
  cases hs : g.wiring.schedule config.defaultDevice with
  | error e => rfl
  | ok s =>
    have hnet := (Netlist.schedule_valid hi.wiring_sound hs).1
    exact congrArg Except.ok (Schedule.plan_relabel ρ _ (hnet ▸ hi.wiring_sound) config)

def gappedNodes : Graph Script :=
  let typed := (Command.run ({} : Graph Script) (.registerType passType)).graph
  let spare := (Command.run typed (.create ⟨3⟩ "spare")).graph
  let first := (Command.run spare (.create ⟨3⟩ "first")).graph
  let draft := (Command.run first (.create ⟨3⟩ "draft")).graph
  let left := (Command.run draft (.remove ⟨0⟩)).graph
  let second := (Command.run left (.create ⟨3⟩ "second")).graph
  let third := (Command.run second (.create ⟨3⟩ "third")).graph
  let drafted := (Command.run third (.remove ⟨2⟩)).graph
  (Command.run drafted (.addConstant "enabled" true)).graph

def gapped : Graph Script :=
  List.foldl (fun g c => (Command.run g c).graph) gappedNodes
    [.setDevice ⟨1⟩ (some ⟨0⟩), .setDevice ⟨3⟩ (some ⟨1⟩),
      .connect ⟨⟨1⟩, .data 0, ⟨3⟩, .data 0⟩, .connect ⟨⟨3⟩, .data 0, ⟨4⟩, .data 0⟩,
      .connect ⟨⟨5⟩, .data 0, ⟨4⟩, .gate⟩]

theorem gapped_reachable : Reachable gapped := by
  have hnodes : Reachable gappedNodes :=
    (((((((((Reachable.new _ _).run _).run _).run _).run _).run _).run _).run _).run _).run _
  exact hnodes.edits _

/-- The numbers in `gapped` of the nodes of `chain`. -/
def gaps (id : NodeId) : NodeId := if id.index = 0 then ⟨1⟩ else ⟨id.index + 2⟩

theorem gaps_renames : Renames gaps chain gapped := by
  have hsame : ∀ i < 4, (gapped.node? (gaps ⟨i⟩)).map (fun m => (m.name, m.type)) =
      (chain.node? ⟨i⟩).map fun n => (n.name, n.type) := by decide +kernel
  have hparams : ∀ i < 4, (gapped.node? (gaps ⟨i⟩)).map (fun m => m.params.entries) =
      (chain.node? ⟨i⟩).map fun n => n.params.entries := by decide +kernel
  have hdevice : ∀ i < 4, (gapped.node? (gaps ⟨i⟩)).bind Node.device =
      (chain.node? ⟨i⟩).bind Node.device := by decide +kernel
  have honto : ∀ i < 6, (gapped.node? ⟨i⟩).isSome →
      ∃ a < 4, (chain.node? ⟨a⟩).isSome ∧ gaps ⟨a⟩ = ⟨i⟩ := by decide +kernel
  have htypes : chain.types = NodeType.builtIn ++ [passType] := rfl
  have htypes' : gapped.types = NodeType.builtIn ++ [passType] := rfl
  have hlt {id : NodeId} (hlive : (chain.node? id).isSome) : id.index < 4 := by
    obtain ⟨n, hn⟩ := Option.isSome_iff_exists.mp hlive
    exact index_lt_of_node? hn
  refine ⟨⟨htypes'.trans htypes.symm, fun id n hn => ?_, fun b hb => ?_, fun a b _ _ hab => ?_,
    by decide +kernel⟩, fun id hlive => hdevice id.index (hlt hlive)⟩
  · have hindex : id.index < 4 := index_lt_of_node? hn
    have hview := hsame id.index hindex
    have hentries := hparams id.index hindex
    rw [hn, Option.map_some] at hview hentries
    obtain ⟨m, hm, hmn⟩ := Option.map_eq_some_iff.mp hview
    rw [hm, Option.map_some, Option.some.injEq] at hentries
    obtain ⟨hname, htype⟩ := Prod.mk.inj hmn
    exact ⟨m, hm, hname, htype, fun _ _ name _ => congrArg (List.lookup name) hentries⟩
  · obtain ⟨m, hm⟩ := Option.isSome_iff_exists.mp hb
    obtain ⟨a, _, ha, hab⟩ := honto b.index (index_lt_of_node? hm) hb
    exact ⟨⟨a⟩, ha, hab⟩
  · unfold gaps
    split <;> split <;> simp <;> omega

/-- The plan of the chain with gaps is that of the chain without, its numbers moved up. -/
theorem gapped_plan : Reachable gapped ∧ Renames gaps chain gapped ∧
    gapped.planFor {} = (chain.planFor {}).map (Plan.rename gaps) ∧
    (gapped.planFor {}).map Plan.waves =
      .ok [[.node ⟨1⟩, .node ⟨5⟩], [.transfer 0], [.node ⟨3⟩], [.node ⟨4⟩]] :=
  ⟨gapped_reachable, gaps_renames, chain_reachable.planFor_rename gapped_reachable gaps_renames {},
    by decide +kernel⟩

end Graph

end FrameGraph
