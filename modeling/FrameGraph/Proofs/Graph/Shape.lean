import FrameGraph.Proofs.Graph.Effects

/-! What running leaves as it is. Executing a frame and refreshing subscriptions write
outputs, subscriptions and work of nodes, loops, the timer, carried values and the
count of frames, and nothing else. Two graphs that differ in no more than that have
the same shape; they hold the same netlist and so compile to the same plan. -/

namespace FrameGraph

variable {β : Type}

/-- A node without what running changes. -/
def Node.still (n : Node β) : Node β := { n with outputs := [], subscriptions := [], work := none }

namespace Graph

/-- `h` differs from `g` only in what running changes. -/
structure SameShape (g h : Graph β) : Prop where
  types : h.types = g.types
  slots : h.slots.map (Option.map Node.still) = g.slots.map (Option.map Node.still)
  names : h.names = g.names
  connections : h.connections = g.connections
  config : h.config = g.config
  plan : h.plan = g.plan
  isOutdated : h.isOutdated = g.isOutdated
  carried : h.carried.length = g.carried.length

namespace SameShape

theorem refl (g : Graph β) : SameShape g g := ⟨rfl, rfl, rfl, rfl, rfl, rfl, rfl, rfl⟩

theorem trans {g h k : Graph β} (hgh : SameShape g h) (hhk : SameShape h k) : SameShape g k :=
  ⟨hhk.types.trans hgh.types, hhk.slots.trans hgh.slots, hhk.names.trans hgh.names,
    hhk.connections.trans hgh.connections, hhk.config.trans hgh.config, hhk.plan.trans hgh.plan,
    hhk.isOutdated.trans hgh.isOutdated, hhk.carried.trans hgh.carried⟩

theorem timing (g : Graph β) (loops : LoopTable Float) (timer : Timer) (frame : Nat) :
    SameShape g { g with loops, timer, frame } := ⟨rfl, rfl, rfl, rfl, rfl, rfl, rfl, rfl⟩

end SameShape

/-! ### Nodes of a graph under a projection -/

theorem nodes_map {γ : Type} (g : Graph β) (f : Node β → γ) :
    g.nodes.map f = (g.slots.map (Option.map f)).filterMap id := by
  rw [nodes, List.map_filterMap, List.filterMap_map]
  rfl

theorem node?_map {γ : Type} (g : Graph β) (f : Node β → γ) (id : NodeId) :
    (g.node? id).map f = ((g.slots.map (Option.map f))[id.index]?).join := by
  rw [node?, List.getElem?_map]
  cases g.slots[id.index]? <;> simp

section View

variable {γ δ : Type} {g h : Graph β} {view : Node β → γ}

/-- What a projection shows of the slots decides what is made of it. -/
theorem slots_comp (hslots : h.slots.map (Option.map view) = g.slots.map (Option.map view))
    (f : γ → δ) :
    h.slots.map (Option.map (f ∘ view)) = g.slots.map (Option.map (f ∘ view)) := by
  rw [← Option.map_comp_map, ← List.map_map, hslots, List.map_map]

/-- Where a projection shows the same of the slots, every live node looks like one from before. -/
theorem mem_nodes_of_view (hslots : h.slots.map (Option.map view) = g.slots.map (Option.map view))
    {n : Node β} (hn : n ∈ h.nodes) : ∃ m ∈ g.nodes, view m = view n := by
  have hnodes : h.nodes.map view = g.nodes.map view := by rw [nodes_map, nodes_map, hslots]
  exact List.mem_map.mp (hnodes ▸ List.mem_map_of_mem hn)

theorem node?_of_view (hslots : h.slots.map (Option.map view) = g.slots.map (Option.map view))
    {id : NodeId} {n : Node β} (hn : h.node? id = some n) :
    ∃ m, g.node? id = some m ∧ view m = view n := by
  have hnode : (g.node? id).map view = (h.node? id).map view := by
    rw [node?_map, node?_map, hslots]
  rw [hn] at hnode
  exact Option.map_eq_some_iff.mp hnode

end View

theorem SameShape.node? {g h : Graph β} (hs : SameShape g h) (id : NodeId) :
    (h.node? id).map Node.still = (g.node? id).map Node.still := by
  rw [node?_map, node?_map, hs.slots]

theorem SameShape.node?_isSome {g h : Graph β} (hs : SameShape g h) (id : NodeId) :
    (h.node? id).isSome = (g.node? id).isSome := by
  simpa using congrArg Option.isSome (hs.node? id)

/-- The type of a node is decided by its number in the node and the types of the graph. -/
theorem typeOf?_congr {g h : Graph β} {id : NodeId} (htypes : h.types = g.types)
    (hnode : (h.node? id).map Node.type = (g.node? id).map Node.type) :
    h.typeOf? id = g.typeOf? id := by
  have htype (k : Graph β) : k.typeOf? id = ((k.node? id).map Node.type).bind k.type? := by
    rw [typeOf?, Option.bind_map]
    rfl
  rw [htype, htype, hnode]
  exact congrArg (Option.bind _) (funext fun type => by rw [type?, type?, htypes])

theorem SameShape.typeOf? {g h : Graph β} (hs : SameShape g h) (id : NodeId) :
    h.typeOf? id = g.typeOf? id := by
  have hnode := congrArg (Option.map Node.type) (hs.node? id)
  rw [Option.map_map, Option.map_map] at hnode
  exact typeOf?_congr hs.types hnode

theorem SameShape.isCombinational {g h : Graph β} (hs : SameShape g h) (id : NodeId) :
    h.isCombinational id = g.isCombinational id := by
  rw [Graph.isCombinational, Graph.isCombinational, hs.typeOf?]

theorem map_modify_of_eq {α γ : Type} (l : List α) (i : Nat) (f : α → α) (view : α → γ)
    (h : ∀ a, l[i]? = some a → view (f a) = view a) : (l.modify i f).map view = l.map view := by
  apply List.ext_getElem?
  intro j
  rw [List.getElem?_map, List.getElem?_map, List.getElem?_modify]
  split
  · next heq =>
    subst heq
    cases ha : l[i]? with
    | none => rfl
    | some a => simp [h a ha]
  · simp

/-- What a projection shows of the slots is kept by an edit of one node that it does not show. -/
theorem modifyNode_map {γ : Type} (g : Graph β) (id : NodeId) (f : Node β → Node β)
    (view : Node β → γ) (h : ∀ n, g.node? id = some n → view (f n) = view n) :
    (g.modifyNode id f).slots.map (Option.map view) = g.slots.map (Option.map view) := by
  apply map_modify_of_eq _ _ _ _
  intro slot hslot
  cases slot with
  | none => rfl
  | some n => simp [h n (by simp [node?, hslot])]

theorem node?_modifyNode (g : Graph β) (id other : NodeId) (f : Node β → Node β) :
    (g.modifyNode id f).node? other = if id = other then (g.node? id).map f else g.node? other := by
  simp only [node?, modifyNode, List.getElem?_modify]
  split
  · next hindex =>
    have heq : id = other := congrArg NodeId.mk hindex
    subst heq
    cases g.slots[id.index]? <;> simp
  · next hindex =>
    have hne : id ≠ other := fun heq => hindex (congrArg NodeId.index heq)
    simp [hne]

theorem modifyNode_sameShape (g : Graph β) (id : NodeId) (f : Node β → Node β)
    (h : ∀ n, (f n).still = n.still) : SameShape g (g.modifyNode id f) :=
  ⟨rfl, modifyNode_map g id f _ fun n _ => h n, rfl, rfl, rfl, rfl, rfl, rfl⟩

/-! ### Subscriptions -/

theorem length_deliver (g : Graph β) (subscribed : Subscribed) (c : Connection) :
    (g.deliver subscribed c).length = subscribed.length := by
  unfold deliver
  split <;> simp

theorem length_sweep (g : Graph β) (subscribed : Subscribed) :
    (g.sweep subscribed).length = subscribed.length := by
  unfold sweep
  induction g.connections.filter Connection.carriesLoops generalizing subscribed with
  | nil => rfl
  | cons c rest ih => rw [List.foldl_cons, ih, length_deliver]

theorem length_sweeps (g : Graph β) (n : Nat) (subscribed : Subscribed) :
    (g.sweeps n subscribed).length = subscribed.length := by
  induction n generalizing subscribed with
  | zero => rfl
  | succ n ih =>
    simp only [sweeps]
    split
    · rfl
    · rw [ih, length_sweep]

theorem length_subscribed (g : Graph β) : g.subscribed.length = g.slots.length := by
  rw [subscribed, length_sweeps, List.length_replicate]

/-- What a projection shows of the slots is kept when subscriptions are refreshed that it does not
show. -/
theorem propagate_map {γ : Type} (g : Graph β) (view : Node β → γ)
    (h : ∀ (n : Node β) (subscriptions : List LoopId), view { n with subscriptions } = view n) :
    g.propagate.slots.map (Option.map view) = g.slots.map (Option.map view) := by
  have hfst : (g.slots.zip g.subscribed).map Prod.fst = g.slots :=
    List.map_fst_zip (by simp [length_subscribed])
  conv =>
    rhs
    rw [← hfst, List.map_map]
  rw [propagate, List.map_map]
  apply List.map_congr_left
  intro pair _
  cases hslot : pair.1 <;> simp [hslot, h]

theorem propagate_sameShape (g : Graph β) : SameShape g g.propagate :=
  ⟨rfl, propagate_map g _ fun _ _ => rfl, rfl, rfl, rfl, rfl, rfl, rfl⟩

/-! ### Frames -/

variable [Behavior β] {g h : Graph β}

theorem Effect.sameShape (e : Effect g h) : SameShape g h := by
  cases e with
  | time loops timer frame => exact .timing g loops timer frame
  | propagate => exact propagate_sameShape g
  | carry t value => exact ⟨rfl, rfl, rfl, rfl, rfl, rfl, rfl, List.length_set⟩
  | invoke id => exact modifyNode_sameShape g id _ fun _ => rfl

theorem Effects.sameShape (e : Effects g h) : SameShape g h := by
  induction e with
  | refl => exact .refl g
  | tail _ e ih => exact ih.trans e.sameShape

theorem runFrame_sameShape (g : Graph β) (limit : Nat) (plan : Plan) (override : Option Float)
    (watch : Stopwatch) : SameShape g (g.runFrame limit plan override watch).graph :=
  (g.runFrame_effects limit plan override watch).sameShape

theorem walk_sameShape {p q : Progress β} {plan : Plan} {pass : Pass} {steps : List Step}
    {failure : Option Failure} (h : p.walk plan pass steps = (q, failure)) :
    SameShape p.graph q.graph := (Progress.effects_of_walk h).sameShape

end Graph

end FrameGraph
