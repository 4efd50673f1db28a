import FrameGraph.Proofs.Graph.Integrity

/-! Every node holds one value for each output of its type, empty or of the output's type. A new
node begins with empty values, and a write replaces one only by a value that fits its port, so
that nothing that an application can do leaves anything else. -/

namespace FrameGraph

variable {β : Type}

namespace Value

/-- One value for each type, empty or of that type. -/
structure Fill (values : List Value) (types : List PortType) : Prop where
  length : values.length = types.length
  typed : ∀ (i : Nat) (v : Value) (type : PortType), values[i]? = some v → types[i]? = some type →
    v = .empty ∨ v.type? = some type

theorem fits_iff {v : Value} {type : PortType} :
    v.fits type = true ↔ v = .empty ∨ v.type? = some type := by
  cases v <;> simp [fits, type?]

theorem Fill.empty (types : List PortType) : Fill (List.replicate types.length .empty) types :=
  ⟨List.length_replicate, fun _ _ _ hv _ =>
    .inl (List.eq_of_mem_replicate (List.mem_of_getElem? hv))⟩

theorem Fill.set {values : List Value} {types : List PortType} (h : Fill values types) {i : Nat}
    {v : Value} (hv : ∀ type, types[i]? = some type → v = .empty ∨ v.type? = some type) :
    Fill (values.set i v) types := by
  refine ⟨List.length_set.trans h.length, fun j w type hw htype => ?_⟩
  rw [List.getElem?_set] at hw
  split at hw
  · next heq =>
    subst heq
    split at hw
    · obtain rfl := Option.some.inj hw
      exact hv type htype
    · cases hw
  · exact h.typed j w type hw htype

end Value

theorem OutputPort.accepts {ports : List OutputPort} {index : Nat} {value : Value}
    (h : refusal? ports index value = none) {type : PortType}
    (htype : (ports.map OutputPort.type)[index]? = some type) :
    value = .empty ∨ value.type? = some type := by
  obtain ⟨port, hport, rfl⟩ := Option.map_eq_some_iff.mp (List.getElem?_map.symm.trans htype)
  simp only [refusal?, hport] at h
  split at h
  · next hfits => exact Value.fits_iff.mp hfits
  · cases h

/-- Whatever a behavior does, its node's outputs hold what their ports may hold. -/
theorem Activity.fill_run (a : Activity β) (ports : List OutputPort) {outputs : List Value}
    (h : Value.Fill outputs (ports.map OutputPort.type)) :
    Value.Fill (a.run ports outputs).outputs (ports.map OutputPort.type) := by
  induction a generalizing outputs with
  | finish next failure => exact h
  | write index value rest ih =>
    simp only [run]
    split
    · exact ih _ h
    · next haccepted => exact ih _ (h.set fun _ htype => OutputPort.accepts haccepted htype)
  | read index rest ih => exact ih _ h
  | note remark rest ih => exact ih h

def Node.filling (n : Node β) : TypeId × List Value := (n.type, n.outputs)

namespace Graph

/-- Every node is of a known type and its outputs hold what they may hold. -/
def Filled (g : Graph β) : Prop :=
  ∀ n ∈ g.nodes, ∃ type, g.type? n.type = some type ∧
    Value.Fill n.outputs (type.outputs.map OutputPort.type)

variable {g h : Graph β}

theorem Filled.fill (hg : g.Filled) {id : NodeId} {n : Node β} {type : NodeType β}
    (hn : g.node? id = some n) (htype : g.type? n.type = some type) :
    Value.Fill n.outputs (type.outputs.map OutputPort.type) := by
  obtain ⟨found, hfound, hfill⟩ := hg n (mem_nodes_of_node? hn)
  obtain rfl := Option.some.inj (htype.symm.trans hfound)
  exact hfill

theorem Filled.outputs (hg : g.Filled) {id : NodeId} {n : Node β} {type : NodeType β}
    (hn : g.node? id = some n) (htype : g.type? n.type = some type) :
    n.outputs.length = type.outputs.length :=
  (hg.fill hn htype).length.trans (List.length_map _)

theorem Filled.of_filling (hg : g.Filled) (htypes : h.types = g.types)
    (hslots : h.slots.map (Option.map Node.filling) = g.slots.map (Option.map Node.filling)) :
    h.Filled := by
  intro n hn
  obtain ⟨m, hm, hfilling⟩ := mem_nodes_of_view hslots hn
  obtain ⟨htype, houtputs⟩ := Prod.mk.inj hfilling
  obtain ⟨type, hknown, hfill⟩ := hg m hm
  exact ⟨type, by rw [type?, htypes, ← htype]; exact hknown, houtputs ▸ hfill⟩

theorem Filled.registerType (hg : g.Filled) (type : NodeType β) :
    ({ g with types := g.types ++ [type] } : Graph β).Filled := by
  intro n hn
  obtain ⟨known, hknown, hfill⟩ := hg n hn
  have hlt : n.type.index < g.types.length := (List.getElem?_eq_some_iff.mp hknown).1
  exact ⟨known, (type?_append _ hlt).trans hknown, hfill⟩

theorem Filled.create (hg : g.Filled) {typeId : TypeId} {type : NodeType β} (name : String)
    (known : g.type? typeId = some type) :
    ({ g with
      slots := g.slots ++ [some (Node.ofType ⟨g.slots.length⟩ name typeId type)]
      names := g.names.insert name ⟨g.slots.length⟩
      isOutdated := true } : Graph β).Filled := by
  intro n hn
  simp only [nodes, List.filterMap_append, List.mem_append] at hn
  rcases hn with hold | hnew
  · exact hg n hold
  · obtain rfl : n = Node.ofType ⟨g.slots.length⟩ name typeId type := by simpa using hnew
    refine ⟨type, known, ?_⟩
    rw [Node.ofType, ← List.length_map (f := OutputPort.type)]
    exact .empty _

theorem Filled.edit (hg : g.Filled) (e : Edit g h) : h.Filled := by
  cases e with
  | registerLoop | setConfig | connect | connectLoops | disconnect | compile | advanceClock =>
    exact hg
  | registerType type => exact hg.registerType type
  | create typeId type name known => exact hg.create name known
  | remove id => exact fun n hn => hg n ((filterMap_set_none_sublist _ _).subset hn)
  | setParam id | setDevice id | setBehavior id =>
    exact hg.of_filling rfl (modifyNode_map g id _ _ fun _ _ => rfl)
  | propagate => exact hg.of_filling rfl (propagate_map g _ fun _ _ => rfl)

variable [Behavior β]

theorem Filled.effect (hg : g.Filled) (e : Effect g h) : h.Filled := by
  cases e with
  | time | carry => exact hg
  | propagate => exact hg.of_filling rfl (propagate_map g _ fun _ _ => rfl)
  | invoke id n type work c live known works params =>
    intro m hm
    rcases mem_nodes_modifyNode live hm with rfl | hold
    · exact ⟨type, known, Activity.fill_run _ _ (hg.fill live known)⟩
    · exact hg m hold

theorem Filled.effects (hg : g.Filled) (e : Effects g h) : h.Filled := by
  induction e with
  | refl => exact hg
  | tail _ e ih => exact ih.effect e

/-- The outputs of every node of a reachable graph hold what they may hold. -/
theorem Reachable.filled (hg : Reachable g) : g.Filled := by
  refine hg.invariant (fun _ _ n hn => nomatch hn) fun g h hfilled hc => ?_
  cases hc with
  | edit e => exact hfilled.edit e
  | runFrame limit plan override watch =>
    exact hfilled.effects (g.runFrame_effects limit plan override watch)

end Graph

end FrameGraph
