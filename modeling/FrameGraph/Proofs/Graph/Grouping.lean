import FrameGraph.Proofs.Graph.Order
import FrameGraph.Proofs.Plan.Grouping

/-! The pipeline groups of a plan, seen from its graph. Nodes are grouped by their types
and pipeline parameters alone: two of them are in one group exactly when their type
allows it and they agree on each of its pipeline parameters. -/

namespace FrameGraph

variable {β : Type}

/-- The value of a parameter. A missing one counts as empty. -/
def Node.setting (n : Node β) (name : String) : Value := (n.params.get? name).getD .empty

namespace Graph

/-- Nodes of one type that allows it and with one value of each of its pipeline parameters. Doubles
are one value when their bits agree. -/
def Shares (g : Graph β) (m n : Node β) : Prop :=
  m.type = n.type ∧ ∃ type, g.type? m.type = some type ∧ type.features.instancing = true ∧
    ∀ name ∈ type.pipelineParams, m.setting name = n.setting name

structure IsGrouped (g : Graph β) (p : Plan) : Prop where
  /-- Each live node is a member of one group. -/
  members : (p.groups.flatMap Group.members).Perm (g.nodes.map Node.id)
  number : ∀ id i, p.groupOf? id = some i ↔
    ∃ group, p.groups[i]? = some group ∧ id ∈ group.members
  numbers : ∀ i, i < p.groups.length ↔ ∃ n ∈ g.nodes, p.groupOf? n.id = some i
  /-- Members stand in their group as they do in the plan. -/
  inOrder : ∀ group ∈ p.groups, (group.members.map Step.node).Sublist p.order
  /-- Groups stand as their first members do in the plan. -/
  ordered : ∃ firsts : List NodeId, p.groups.map (fun group => group.members.head?) =
    firsts.map some ∧ (firsts.map Step.node).Sublist p.order
  order_nodup : p.order.Nodup
  /-- What members of a group agree on is recorded with it. -/
  common : ∀ group ∈ p.groups, ∀ n ∈ g.nodes, n.id ∈ group.members → group.type = n.type ∧
    ∃ type, g.type? n.type = some type ∧
      group.params = type.pipelineParams.map fun name => (name, n.setting name)
  shared : ∀ m ∈ g.nodes, ∀ n ∈ g.nodes, m.id ≠ n.id →
    (p.groupOf? m.id = p.groupOf? n.id ↔ g.Shares m n)

variable {g : Graph β} {s : Schedule} {config : CompileConfig}

theorem Integral.exists_cell (hg : g.Integral) {n : Node β} (hn : n ∈ g.nodes) :
    ∃ type, g.type? n.type = some type ∧ Cell.ofNode n type ∈ g.wiring.cells := by
  obtain ⟨type, htype⟩ := hg.type?_isSome hn
  exact ⟨type, htype, List.mem_filterMap.mpr ⟨n, hn, by rw [htype]; rfl⟩⟩

theorem shares_cells {m n : Node β} {a b : NodeType β} (ha : g.type? m.type = some a)
    (hb : g.type? n.type = some b) :
    (Cell.ofNode m a).shares (Cell.ofNode n b) = true ↔ g.Shares m n := by
  have hparams (type : NodeType β) :
      (Cell.ofNode m type).params = (Cell.ofNode n type).params ↔
        ∀ name ∈ type.pipelineParams, m.setting name = n.setting name := by
    simp [Cell.ofNode, Node.setting]
  rw [Cell.shares_iff]
  constructor
  · rintro ⟨hinstancing, _, htype, hsame⟩
    have htype : m.type = n.type := htype
    obtain rfl := Option.some.inj (ha.symm.trans (htype ▸ hb))
    exact ⟨htype, a, ha, hinstancing, (hparams a).mp hsame⟩
  · rintro ⟨htype, type, hknown, hinstancing, hsame⟩
    obtain rfl := Option.some.inj (hknown.symm.trans ha)
    obtain rfl := Option.some.inj (hknown.symm.trans (htype ▸ hb))
    exact ⟨hinstancing, hinstancing, htype, (hparams type).mpr hsame⟩

theorem Integral.isGrouped (hg : g.Integral) (hnet : s.layout.net = g.wiring) (hv : s.Valid) :
    g.IsGrouped (s.plan config) := by
  have hgrouped := s.classes_grouped
  have hmembers : (s.groups.flatMap Group.members).Perm (g.nodes.map Node.id) := by
    have hids : g.wiring.cells.map Cell.id = g.nodes.map Node.id := hg.cells_ids
    rw [← hids, ← hnet]
    exact hv.members_perm
  have hnodup : ((s.plan config).groups.flatMap Group.members).Nodup :=
    hmembers.nodup_iff.mpr hg.ids_nodup
  have hcell {n : Node β} (hn : n ∈ g.nodes) : ∃ type, g.type? n.type = some type ∧
      Cell.ofNode n type ∈ s.cellOrder := by
    obtain ⟨type, htype, hmem⟩ := hg.exists_cell hn
    exact ⟨type, htype, hv.cellOrder_perm.mem_iff.mpr (hnet ▸ hmem)⟩
  constructor
  case members => exact hmembers
  case number => exact fun id i => Plan.groupOf?_eq_some hnodup
  case numbers =>
    intro i
    constructor
    · intro hi
      have hget : (s.plan config).groups[i]? = some _ := List.getElem?_eq_getElem hi
      obtain ⟨cells, hcells, heq, _⟩ := Schedule.exists_class (List.mem_of_getElem? hget)
      obtain ⟨first, rest, rfl⟩ := hgrouped.exists_head hcells
      have hfirst : first.id ∈ (s.plan config).groups[i].members := by
        rw [heq]
        exact List.mem_cons_self
      have hlive := hmembers.mem_iff.mp
        (List.mem_flatMap.mpr ⟨_, List.mem_of_getElem? hget, hfirst⟩)
      obtain ⟨n, hn, hid⟩ := List.mem_map.mp hlive
      exact ⟨n, hn, (Plan.groupOf?_eq_some hnodup).mpr ⟨_, hget, hid ▸ hfirst⟩⟩
    · rintro ⟨n, _, hgroup⟩
      obtain ⟨group, hget, _⟩ := (Plan.groupOf?_eq_some hnodup).mp hgroup
      exact (List.getElem?_eq_some_iff.mp hget).1
  case inOrder =>
    intro group hgroup
    obtain ⟨cells, hcells, heq, _⟩ := Schedule.exists_class hgroup
    rw [heq, List.map_map]
    exact ((hgrouped.inOrder cells hcells).map _).trans (s.cellOrder_steps config)
  case ordered => exact s.exists_firsts config
  case order_nodup => exact hv.plan_order_nodup
  case common =>
    intro group hgroup n hn hmem
    obtain ⟨type, htype, hc⟩ := hcell hn
    obtain ⟨cells, hcells, heq, hcommon⟩ := Schedule.exists_class hgroup
    rw [heq] at hmem
    obtain ⟨hgtype, hparams⟩ := hcommon _ ((hv.mem_class hcells hc).mp hmem)
    exact ⟨hgtype, type, htype, hparams⟩
  case shared =>
    intro m hm n hn hne
    obtain ⟨a, ha, hma⟩ := hcell hm
    obtain ⟨b, hb, hnb⟩ := hcell hn
    have hlisted : m.id ∈ (s.plan config).groups.flatMap Group.members :=
      hmembers.mem_iff.mpr (List.mem_map_of_mem hm)
    rw [Plan.groupOf?_eq_iff hnodup hlisted, ← shares_cells ha hb,
      ← hgrouped.together_iff hma hnb fun h => hne (congrArg Cell.id h)]
    constructor
    · rintro ⟨group, hgroup, hmg, hng⟩
      obtain ⟨cells, hcells, heq, _⟩ := Schedule.exists_class hgroup
      rw [heq] at hmg hng
      exact ⟨cells, hcells, (hv.mem_class hcells hma).mp hmg, (hv.mem_class hcells hnb).mp hng⟩
    · rintro ⟨cells, hcells, hmc, hnc⟩
      exact ⟨_, List.mem_map_of_mem hcells, List.mem_map_of_mem hmc, List.mem_map_of_mem hnc⟩

/-- The plan of a reachable graph groups the nodes that share a pipeline, and no others. -/
theorem Reachable.planFor_isGrouped [Behavior β] (hg : Reachable g) {p : Plan}
    (h : g.planFor config = .ok p) : g.IsGrouped p := by
  obtain ⟨s, rfl, hnet, hv⟩ := hg.integral.exists_schedule h
  exact hg.integral.isGrouped hnet hv

/-- Six nodes of a type that shares pipelines by one parameter, two of a type that shares none. -/
def tintNodes : Graph Script :=
  let typed := (Command.run ({} : Graph Script)
    (.registerType { passType with name := "Tint", pipelineParams := ["gain"] })).graph
  let masked := (Command.run typed
    (.registerType { name := "Mask", features := { instancing := false } })).graph
  [(3, "plus"), (3, "minus"), (3, "unset"), (3, "blank"), (3, "first"), (3, "second"),
    (4, "stencil"), (4, "mask")].foldl
    (fun g (type, name) => (Command.run g (.create ⟨type⟩ name)).graph) masked

/-- Two zeros, nothing, an empty value, and a NaN twice. The node with the positive zero reads one
of those with the NaN across devices. -/
def tint : Graph Script :=
  List.foldl (fun g c => (Command.run g c).graph) tintNodes
    [.setParam ⟨0⟩ "gain" (.float ⟨0⟩), .setParam ⟨1⟩ "gain" (.float ⟨0x8000000000000000⟩),
      .setParam ⟨3⟩ "gain" .empty, .setParam ⟨4⟩ "gain" (.float ⟨0x7FF8000000000000⟩),
      .setParam ⟨5⟩ "gain" (.float ⟨0x7FF8000000000000⟩), .setParam ⟨5⟩ "label" (.text "b"),
      .setDevice ⟨5⟩ (some ⟨1⟩), .setDevice ⟨0⟩ (some ⟨0⟩),
      .connect ⟨⟨5⟩, .data 0, ⟨0⟩, .data 0⟩]

theorem tint_reachable : Reachable tint := by
  have hnodes : Reachable tintNodes :=
    ((((((((((Reachable.new _ _).run _).run _).run _).run _).run _).run _).run _).run _).run
      _).run _
  exact hnodes.edits _

/-- The two zeros differ, a missing gain is an empty one, and a NaN is itself. -/
theorem tint_grouped : ∃ plan, tint.planFor {} = .ok plan ∧ tint.IsGrouped plan ∧
    plan.groups.map Group.members = [[⟨1⟩], [⟨2⟩, ⟨3⟩], [⟨4⟩, ⟨5⟩], [⟨6⟩], [⟨7⟩], [⟨0⟩]] := by
  have hplan : (tint.planFor {}).map (fun plan => plan.groups.map Group.members) =
      .ok [[⟨1⟩], [⟨2⟩, ⟨3⟩], [⟨4⟩, ⟨5⟩], [⟨6⟩], [⟨7⟩], [⟨0⟩]] := by decide +kernel
  obtain ⟨plan, h, hgroups⟩ := exists_of_map_eq_ok hplan
  exact ⟨plan, h, tint_reachable.planFor_isGrouped h, hgroups⟩

end Graph

end FrameGraph
