import FrameGraph.Proofs.Graph.Wiring

/-! Plans are fresh. A plan that is installed and not outdated is the plan to which the
graph compiles as it stands, under its present settings, and the graph carries a value
for each of its transfers. Compilation reads a graph through its wiring alone, so a
change either keeps the wiring and the settings or marks the plan as outdated. -/

namespace FrameGraph

namespace Graph

variable {β : Type} {g h : Graph β}

/-! ### What keeps the wiring -/

theorem wiring_congr (hids : h.ids = g.ids) (hcells : h.cells = g.cells)
    (hconnections : h.connections = g.connections) : h.wiring = g.wiring := by
  have hindex (id : NodeId) : h.cellIndex id = g.cellIndex id := by rw [cellIndex, hids, cellIndex]
  have hdata : h.dataEdge? = g.dataEdge? := by
    funext c
    simp only [dataEdge?, hindex]
  have hgate : h.gateEdge? = g.gateEdge? := by
    funext c
    simp only [gateEdge?, hindex]
  rw [wiring, wiringOf, hcells, hconnections, hdata, hgate]
  rfl

/-- What a cell takes from a node, given the types. -/
def cellView (types : List (NodeType β)) (n : Node β) : Option Cell :=
  (types[n.type.index]?).map (Cell.ofNode n)

theorem cells_eq_view (g : Graph β) :
    g.cells = ((g.slots.map (Option.map (cellView g.types))).filterMap id).filterMap id := by
  rw [← nodes_map, List.filterMap_map]
  rfl

/-- The wiring is kept by an edit of the slots that shows neither in numbers nor in cells. -/
theorem wiring_of_slots (htypes : h.types = g.types)
    (hids : h.slots.map (Option.map Node.id) = g.slots.map (Option.map Node.id))
    (hcells : h.slots.map (Option.map (cellView g.types)) =
      g.slots.map (Option.map (cellView g.types)))
    (hconnections : h.connections = g.connections) : h.wiring = g.wiring := by
  refine wiring_congr ?_ ?_ hconnections
  · rw [ids, nodes_map, hids, ← nodes_map, ids]
  · rw [cells_eq_view, cells_eq_view, htypes, hcells]

theorem SameShape.wiring (hs : SameShape g h) : h.wiring = g.wiring :=
  wiring_of_slots hs.types (slots_comp hs.slots Node.id) (slots_comp hs.slots (cellView g.types))
    hs.connections

theorem registerType_wiring (hg : g.Integral) (type : NodeType β) :
    ({ g with types := g.types ++ [type] } : Graph β).wiring = g.wiring := by
  refine wiring_congr rfl (List.filterMap_congr fun n hn => ?_) rfl
  exact congrArg (Option.map (Cell.ofNode n)) (type?_append _ (hg.typed n hn))

/-- A parameter that is no pipeline parameter does not show in the cell of its node. -/
theorem ofNode_insert (n : Node β) (type : NodeType β) {name : String} (value : Value)
    (hname : type.isPipelineParam name = false) :
    Cell.ofNode { n with params := n.params.insert name value } type = Cell.ofNode n type := by
  have hparams : (type.pipelineParams.map fun p =>
      (p, ((n.params.insert name value).get? p).getD .empty)) =
      type.pipelineParams.map fun p => (p, (n.params.get? p).getD .empty) := by
    apply List.map_congr_left
    intro p hp
    have hne : p ≠ name := by
      rintro rfl
      simp [NodeType.isPipelineParam, hp] at hname
    rw [Params.get?_insert, if_neg hne]
  unfold Cell.ofNode
  rw [hparams]

theorem setParam_wiring {id : NodeId} {name : String} (value : Value) {node : Node β}
    {type : NodeType β} (live : g.node? id = some node) (known : g.type? node.type = some type)
    (hname : type.isPipelineParam name = false) :
    (g.modifyNode id fun n => { n with params := n.params.insert name value }).wiring =
      g.wiring := by
  refine wiring_of_slots rfl (modifyNode_map g id _ _ fun _ _ => rfl)
    (modifyNode_map g id _ _ fun n hn => ?_) rfl
  obtain rfl := Option.some.inj (live.symm.trans hn)
  have hknown : g.types[node.type.index]? = some type := known
  simp only [cellView, hknown, Option.map_some, ofNode_insert node type value hname]

theorem edges_of_not_dependency {c : Connection} (hc : c.isDependency = false) :
    g.dataEdge? c = none ∧ g.gateEdge? c = none := by
  unfold Connection.isDependency at hc
  unfold dataEdge? gateEdge?
  split at hc <;> simp_all

theorem connectLoops_wiring {c : Connection} (loops : c.carries? = some .loops) :
    ({ g with connections := g.connections ++ [c] } : Graph β).wiring = g.wiring := by
  obtain ⟨hdata, hgate⟩ : g.dataEdge? c = none ∧ g.gateEdge? c = none :=
    edges_of_not_dependency (by simp [Connection.isDependency, loops])
  change (⟨g.cells, (g.connections ++ [c]).filterMap g.dataEdge?,
    (g.connections ++ [c]).filterMap g.gateEdge?⟩ : Netlist) = g.wiring
  simp [List.filterMap_append, hdata, hgate, wiring, wiringOf]

theorem filterMap_filter_of_none {α γ : Type} (f : α → Option γ) (p : α → Bool) (l : List α)
    (h : ∀ a ∈ l, p a = false → f a = none) : (l.filter p).filterMap f = l.filterMap f := by
  rw [List.filterMap_filter]
  apply List.filterMap_congr
  intro a ha
  cases hp : p a <;> simp [h a ha, hp]

/-- A connection that orders nothing may go without a trace in the wiring. -/
theorem disconnect_wiring {c : Connection} (hc : c.isDependency = false) :
    ({ g with connections := g.connections.filter fun d => d != c } : Graph β).wiring =
      g.wiring := by
  obtain ⟨hdata, hgate⟩ : g.dataEdge? c = none ∧ g.gateEdge? c = none := edges_of_not_dependency hc
  have hkeep {γ : Type} (f : Connection → Option γ) (hf : f c = none) :
      (g.connections.filter fun d => d != c).filterMap f = g.connections.filterMap f := by
    apply filterMap_filter_of_none f _ _
    intro d _ hd
    obtain rfl : d = c := by simpa using hd
    exact hf
  change (⟨g.cells, (g.connections.filter fun d => d != c).filterMap g.dataEdge?,
    (g.connections.filter fun d => d != c).filterMap g.gateEdge?⟩ : Netlist) = g.wiring
  rw [hkeep _ hdata, hkeep _ hgate]
  rfl

/-! ### Fresh plans -/

/-- A plan that is not outdated is the plan of the graph and has a value for each transfer. -/
def PlanIsFresh (g : Graph β) : Prop :=
  ∀ plan, g.plan = some plan → g.isOutdated = false →
    g.planFor g.config = .ok plan ∧ g.carried.length = plan.transfers.length

theorem PlanIsFresh.of_wiring (hf : g.PlanIsFresh) (hg : g.Integral) (hh : h.Integral)
    (hwiring : h.isOutdated = false → h.wiring = g.wiring) (hconfig : h.config = g.config)
    (hplan : h.plan = g.plan) (houtdated : h.isOutdated = false → g.isOutdated = false)
    (hcarried : h.carried.length = g.carried.length) : h.PlanIsFresh := by
  intro plan hp hcurrent
  obtain ⟨hcompiles, hlength⟩ := hf plan (hplan ▸ hp) (houtdated hcurrent)
  refine ⟨?_, hcarried.trans hlength⟩
  rw [hh.planFor_eq, hwiring hcurrent, hconfig, ← hg.planFor_eq]
  exact hcompiles

theorem PlanIsFresh.of_sameShape (hf : g.PlanIsFresh) (hg : g.Integral) (hs : SameShape g h) :
    h.PlanIsFresh :=
  hf.of_wiring hg (hg.of_sameShape hs) (fun _ => hs.wiring) hs.config hs.plan
    (fun hh => hs.isOutdated ▸ hh) hs.carried

theorem PlanIsFresh.edit (hf : g.PlanIsFresh) (hg : g.Integral) (e : Edit g h) :
    h.PlanIsFresh := by
  have hh := hg.edit e
  cases e with
  | registerLoop => exact hf.of_wiring hg hh (fun _ => rfl) rfl rfl id rfl
  | registerType type =>
    exact hf.of_wiring hg hh (fun _ => registerType_wiring hg type) rfl rfl id rfl
  | create | remove | setDevice | setConfig | connect => exact fun _ _ hcurrent => nomatch hcurrent
  | setParam id name value node type live known =>
    refine hf.of_wiring hg hh (fun hcurrent => ?_) rfl rfl (fun hcurrent => ?_) rfl
    · exact setParam_wiring value live known (Bool.or_eq_false_iff.mp hcurrent).2
    · exact (Bool.or_eq_false_iff.mp hcurrent).1
  | setBehavior id behavior live =>
    exact hf.of_sameShape hg (modifyNode_sameShape g id _ fun _ => rfl)
  | connectLoops c loops fits fresh =>
    exact hf.of_wiring hg hh (fun _ => connectLoops_wiring loops) rfl rfl id rfl
  | disconnect c =>
    refine hf.of_wiring hg hh (fun hcurrent => ?_) rfl rfl (fun hcurrent => ?_) rfl
    · exact disconnect_wiring (Bool.or_eq_false_iff.mp hcurrent).2
    · exact (Bool.or_eq_false_iff.mp hcurrent).1
  | propagate => exact hf.of_sameShape hg (propagate_sameShape g)
  | compile plan compiles =>
    intro installed hinstalled _
    obtain rfl := Option.some.inj hinstalled
    exact ⟨compiles, List.length_replicate⟩
  | advanceClock => exact hf.of_wiring hg hh (fun _ => rfl) rfl rfl id rfl

theorem PlanIsFresh.change [Behavior β] (hf : g.PlanIsFresh) (hg : g.Integral)
    (hc : Change g h) : h.PlanIsFresh := by
  cases hc with
  | edit e => exact hf.edit hg e
  | runFrame limit plan override watch =>
    exact hf.of_sameShape hg (g.runFrame_sameShape limit plan override watch)

theorem Reachable.planIsFresh [Behavior β] (hg : Reachable g) : g.PlanIsFresh := by
  refine (hg.invariant (P := fun g => g.Integral ∧ g.PlanIsFresh) (fun timer config => ?_)
    fun _ _ h hc => ?_).2
  · exact ⟨.new timer config, fun _ hplan => nomatch hplan⟩
  · exact ⟨h.1.change hc, h.2.change h.1 hc⟩

/-- A graph that is compiled holds the plan that it compiles to as it stands, with a value for each
transfer, and walks this plan; one that is not refuses to run. -/
theorem Reachable.execute_current [Behavior β] (hg : Reachable g) :
    (g.isCompiled = true → ∃ plan, g.plan = some plan ∧ g.planFor g.config = .ok plan ∧
      g.carried.length = plan.transfers.length ∧
      ∀ override watch limit,
        g.execute override watch limit = g.runFrame limit plan override watch) ∧
    (g.isCompiled = false → ∀ override watch limit, ∃ refusal,
      (refusal = .notCompiled ∨ refusal = .planOutdated) ∧
      g.execute override watch limit = ⟨g, .error refusal, #[]⟩) := by
  have hfresh := hg.planIsFresh
  cases hplan : g.plan with
  | none =>
    have hrefuse (override : Option Float) (watch : Stopwatch) (limit : Nat) :
        g.execute override watch limit = ⟨g, .error .notCompiled, #[]⟩ := by simp [execute, hplan]
    refine ⟨fun hcompiled => ?_, fun _ override watch limit => ?_⟩
    · simp [isCompiled, hplan] at hcompiled
    · exact ⟨_, .inl rfl, hrefuse override watch limit⟩
  | some plan =>
    cases houtdated : g.isOutdated with
    | false =>
      refine ⟨fun _ => ?_, fun hcompiled => ?_⟩
      · obtain ⟨hcompiles, hcarried⟩ := hfresh plan hplan houtdated
        exact ⟨plan, rfl, hcompiles, hcarried, fun override watch limit => by
          simp [execute, hplan, houtdated]⟩
      · simp [isCompiled, hplan, houtdated] at hcompiled
    | true =>
      refine ⟨fun hcompiled => ?_, fun _ override watch limit => ?_⟩
      · simp [isCompiled, houtdated] at hcompiled
      · exact ⟨_, .inr rfl, by simp [execute, hplan, houtdated]⟩

def chainCompiled : Graph Script := (Command.run chain .compile).graph

theorem chainCompiled_walks : Reachable chainCompiled ∧ chainCompiled.isCompiled = true ∧
    ∃ plan, chainCompiled.plan = some plan ∧
      chainCompiled.planFor chainCompiled.config = .ok plan ∧
      chainCompiled.carried.length = plan.transfers.length ∧
      ∀ override watch limit, chainCompiled.execute override watch limit =
        chainCompiled.runFrame limit plan override watch := by
  have hreachable : Reachable chainCompiled := chain_reachable.run .compile
  have hcompiled : chainCompiled.isCompiled = true := by decide +kernel
  exact ⟨hreachable, hcompiled, hreachable.execute_current.1 hcompiled⟩

end Graph

end FrameGraph
