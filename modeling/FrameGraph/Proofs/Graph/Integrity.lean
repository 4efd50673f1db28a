import Mathlib.Data.List.Nodup
import FrameGraph.Proofs.Graph.Reachable
import FrameGraph.Proofs.Graph.Shape

/-! The integrity of reachable graphs. A node lives in the slot of its number, the index of
names lists every live node under its name and nothing else, types are registered and
keep to their instance limits; every connection joins live nodes over ports that fit,
and no input has two producers. All of this is a matter of numbers, names and types of
nodes, of the index and of the connections, so an edit that keeps those keeps the
integrity. -/

namespace FrameGraph

variable {β : Type}

def Node.label (n : Node β) : NodeId × String × TypeId := (n.id, n.name, n.type)

namespace Graph

structure Integral (g : Graph β) : Prop where
  id_eq : ∀ id n, g.node? id = some n → n.id = id
  typed : ∀ n ∈ g.nodes, n.type.index < g.types.length
  named : ∀ name id, g.nodeNamed? name = some id ↔ ∃ n, g.node? id = some n ∧ n.name = name
  limits : ∀ id type max, g.type? id = some type → type.maxInstances = some max →
    (g.instances id).length ≤ max
  fits : ∀ c ∈ g.connections, g.Fits c
  connections_nodup : g.connections.Nodup
  single_producer :
    g.dependencies.Pairwise fun c d => ¬(c.sink = d.sink ∧ c.sinkPort = d.sinkPort)

variable {g h : Graph β}

theorem mem_nodes_iff {n : Node β} : n ∈ g.nodes ↔ ∃ id, g.node? id = some n := by
  simp only [nodes, List.mem_filterMap, id, exists_eq_right, node?, Option.join_eq_some_iff]
  rw [List.mem_iff_getElem?]
  constructor
  · rintro ⟨i, hi⟩
    exact ⟨⟨i⟩, hi⟩
  · rintro ⟨id, hid⟩
    exact ⟨id.index, hid⟩

theorem mem_nodes_of_node? {id : NodeId} {n : Node β} (hn : g.node? id = some n) : n ∈ g.nodes :=
  mem_nodes_iff.mpr ⟨id, hn⟩

theorem mem_nodes_modifyNode {id : NodeId} {f : Node β → Node β} {n m : Node β}
    (live : g.node? id = some n) (hm : m ∈ (g.modifyNode id f).nodes) : m = f n ∨ m ∈ g.nodes := by
  obtain ⟨other, hother⟩ := mem_nodes_iff.mp hm
  rw [node?_modifyNode] at hother
  split at hother
  · rw [live] at hother
    exact .inl (Option.some.inj hother).symm
  · exact .inr (mem_nodes_of_node? hother)

theorem Integral.node?_id (hg : g.Integral) {n : Node β} (hn : n ∈ g.nodes) :
    g.node? n.id = some n := by
  obtain ⟨id, hid⟩ := mem_nodes_iff.mp hn
  rw [hg.id_eq id n hid]
  exact hid

/-! ### Edits that keep numbers, names, types and connections -/

theorem typeOf?_eq_label (g : Graph β) (id : NodeId) :
    g.typeOf? id = ((g.node? id).map Node.label).bind fun l => g.type? l.2.2 := by
  rw [typeOf?, Option.bind_map]
  rfl

theorem length_instances (g : Graph β) (id : TypeId) :
    (g.instances id).length = ((g.nodes.map Node.label).filter fun l => l.2.2 == id).length := by
  rw [instances, List.length_map, List.filter_map, List.length_map]
  rfl

theorem Integral.of_label (hg : g.Integral) (htypes : h.types = g.types)
    (hslots : h.slots.map (Option.map Node.label) = g.slots.map (Option.map Node.label))
    (hnames : h.names = g.names) (hconnections : h.connections = g.connections) : h.Integral := by
  have hnode (id : NodeId) : (h.node? id).map Node.label = (g.node? id).map Node.label := by
    rw [node?_map, node?_map, hslots]
  have hnodes : h.nodes.map Node.label = g.nodes.map Node.label := by
    rw [nodes_map, nodes_map, hslots]
  have htype (id : TypeId) : h.type? id = g.type? id := by rw [type?, type?, htypes]
  have htypeOf (id : NodeId) : h.typeOf? id = g.typeOf? id := by
    simp only [typeOf?_eq_label, hnode, htype]
  refine ⟨fun id n hn => ?_, fun n hn => ?_, fun name id => ?_, fun id type max hid hmax => ?_,
    fun c hc => ?_, hconnections ▸ hg.connections_nodup, ?_⟩
  · obtain ⟨m, hm, hlabel⟩ := node?_of_view hslots hn
    exact (congrArg Prod.fst hlabel).symm.trans (hg.id_eq id m hm)
  · obtain ⟨m, hm, hlabel⟩ := mem_nodes_of_view hslots hn
    have heq : m.type = n.type := congrArg (fun l => l.2.2) hlabel
    rw [← heq, htypes]
    exact hg.typed m hm
  · have hname (k : Graph β) : (∃ n, k.node? id = some n ∧ n.name = name) ↔
        ((k.node? id).map Node.label).map (·.2.1) = some name := by
      simp [Node.label]
    rw [nodeNamed?, hnames, hname, hnode, ← hname]
    exact hg.named name id
  · rw [length_instances, hnodes, ← length_instances]
    exact hg.limits id type max (htype id ▸ hid) hmax
  · obtain ⟨source, sink, carried, hsource, hsink, rest⟩ := hg.fits c (hconnections ▸ hc)
    exact ⟨source, sink, carried, (htypeOf _).trans hsource, (htypeOf _).trans hsink, rest⟩
  · rw [dependencies, hconnections]
    exact hg.single_producer

theorem Integral.of_sameShape (hg : g.Integral) (hs : SameShape g h) : h.Integral :=
  hg.of_label hs.types (slots_comp hs.slots Node.label) hs.names hs.connections

/-! ### Edits of nodes, types and connections -/

theorem type?_append {id : TypeId} (extra : List (NodeType β)) (hid : id.index < g.types.length) :
    (g.types ++ extra)[id.index]? = g.type? id := by
  rw [type?, List.getElem?_append_left hid]

theorem typeOf?_isSome {id : NodeId} {type : NodeType β} (hid : g.typeOf? id = some type) :
    ∃ n, g.node? id = some n ∧ g.type? n.type = some type := by
  simpa [typeOf?, Option.bind_eq_some_iff] using hid

theorem Fits.mono {c : Connection} (hc : g.Fits c)
    (hsource : ∀ type, g.typeOf? c.source = some type → h.typeOf? c.source = some type)
    (hsink : ∀ type, g.typeOf? c.sink = some type → h.typeOf? c.sink = some type) : h.Fits c := by
  obtain ⟨source, sink, carried, hs, ht, rest⟩ := hc
  exact ⟨source, sink, carried, hsource _ hs, hsink _ ht, rest⟩

theorem Integral.registerType (hg : g.Integral) (type : NodeType β) :
    ({ g with types := g.types ++ [type] } : Graph β).Integral := by
  refine { hg with
    typed := fun n hn => by
      have := hg.typed n hn
      simp only [List.length_append]
      omega
    limits := fun id t max hid hmax => ?_
    fits := fun c hc => (hg.fits c hc).mono (fun t ht => ?_) fun t ht => ?_ }
  · by_cases hlt : id.index < g.types.length
    · exact hg.limits id t max ((type?_append _ hlt).symm.trans hid) hmax
    · have hnone : g.instances id = [] := by
        rw [instances, List.map_eq_nil_iff, List.filter_eq_nil_iff]
        intro n hn heq
        have := hg.typed n hn
        rw [beq_iff_eq.mp heq] at this
        exact hlt this
      change (g.instances id).length ≤ max
      rw [hnone]
      exact Nat.zero_le _
  all_goals
    obtain ⟨n, hn, htype⟩ := typeOf?_isSome ht
    have hlt := hg.typed n (mem_nodes_of_node? hn)
    exact Option.bind_eq_some_iff.mpr ⟨n, hn, (type?_append _ hlt).trans htype⟩

theorem nodes_place (g : Graph β) (n : Node β) : (g.place n).nodes = g.nodes ++ [n] := by
  simp [nodes, place]

theorem node?_place (g : Graph β) (n : Node β) (id : NodeId) :
    (g.place n).node? id = if id.index = g.slots.length then some n else g.node? id := by
  simp only [node?, place]
  split
  · next heq => simp [heq]
  · next hne =>
    by_cases hlt : id.index < g.slots.length
    · rw [List.getElem?_append_left hlt]
    · rw [List.getElem?_eq_none (by simp; omega), List.getElem?_eq_none (by omega)]

theorem index_lt_of_node? {id : NodeId} {n : Node β} (hn : g.node? id = some n) :
    id.index < g.slots.length := by
  by_contra hge
  rw [node?, List.getElem?_eq_none (by omega)] at hn
  cases hn

theorem Integral.create (hg : g.Integral) {typeId : TypeId} {type : NodeType β} {name : String}
    (known : g.type? typeId = some type) (fresh : g.nodeNamed? name = none)
    (room : ∀ max, type.maxInstances = some max → (g.instances typeId).length < max) :
    (g.place (.ofType ⟨g.slots.length⟩ name typeId type)).Integral := by
  have hnodes : (g.place (.ofType ⟨g.slots.length⟩ name typeId type)).nodes =
      g.nodes ++ [.ofType ⟨g.slots.length⟩ name typeId type] := g.nodes_place _
  have hkeep (id : NodeId) (t : NodeType β) (ht : g.typeOf? id = some t) :
      (g.place (.ofType ⟨g.slots.length⟩ name typeId type)).typeOf? id = some t := by
    obtain ⟨n, hn, htype⟩ := typeOf?_isSome ht
    have hlt := index_lt_of_node? hn
    rw [typeOf?, node?_place, if_neg (by omega), hn]
    exact htype
  refine { hg with
    id_eq := fun id n hn => ?_
    typed := fun n hn => ?_
    named := fun other id => ?_
    limits := fun id t max hid hmax => ?_
    fits := fun c hc => (hg.fits c hc).mono (hkeep _) (hkeep _) }
  · rw [node?_place] at hn
    split at hn
    · next heq =>
      obtain rfl := Option.some.inj hn
      exact congrArg NodeId.mk heq.symm
    · exact hg.id_eq id n hn
  · rw [hnodes, List.mem_append, List.mem_singleton] at hn
    rcases hn with hn | rfl
    · exact hg.typed n hn
    · exact (List.getElem?_eq_some_iff.mp known).1
  · rw [node?_place]
    change (g.names.insert name ⟨g.slots.length⟩).find? other = some id ↔ _
    rw [NameIndex.find?_insert]
    split
    · next hother =>
      -- a new name is that of the new node alone
      subst hother
      split
      · next hid =>
        have hself : (⟨g.slots.length⟩ : NodeId) = id := congrArg NodeId.mk hid.symm
        simp [Node.ofType, hself]
      · next hid =>
        have hne : (⟨g.slots.length⟩ : NodeId) ≠ id := fun h => hid (congrArg NodeId.index h.symm)
        refine iff_of_false (fun h => hne (Option.some.inj h)) fun h => ?_
        exact Option.some_ne_none id (((hg.named other id).mpr h).symm.trans fresh)
    · next hother =>
      split
      · next hid =>
        have hgone : g.node? id = none := by
          rw [node?, List.getElem?_eq_none (Nat.le_of_eq hid.symm), Option.join_none]
        refine iff_of_false ((hg.named other id).not.mpr (by simp [hgone])) ?_
        simpa [Node.ofType] using Ne.symm hother
      · exact hg.named other id
  · have hinstances := hg.limits id t max hid hmax
    simp only [instances, List.length_map] at hinstances ⊢
    rw [hnodes, List.filter_append, List.length_append]
    by_cases heq : typeId = id
    · subst heq
      obtain rfl := Option.some.inj (known.symm.trans hid)
      have := room max hmax
      simp only [instances, List.length_map] at this
      have hone := List.length_filter_le (fun n : Node β => n.type == typeId)
        [Node.ofType ⟨g.slots.length⟩ name typeId type]
      rw [List.length_singleton] at hone
      omega
    · simpa [Node.ofType, heq] using hinstances

theorem node?_set_none (g : Graph β) (id other : NodeId) (names : NameIndex)
    (connections : List Connection) (outdated : Bool) :
    ({ g with
      slots := g.slots.set id.index none, names, connections, isOutdated := outdated } :
        Graph β).node? other = if id = other then none else g.node? other := by
  simp only [node?, List.getElem?_set]
  by_cases heq : id = other
  · subst heq
    by_cases hlt : id.index < g.slots.length <;> simp [hlt]
  · have hne : id.index ≠ other.index := fun h => heq (congrArg NodeId.mk h)
    simp [hne, heq]

theorem filterMap_set_none_sublist {α : Type} (l : List (Option α)) (i : Nat) :
    ((l.set i none).filterMap id).Sublist (l.filterMap id) := by
  induction l generalizing i with
  | nil => exact .refl _
  | cons slot rest ih =>
    cases i with
    | zero => cases slot <;> simp
    | succ i =>
      cases slot with
      | none => exact ih i
      | some a => exact (ih i).cons_cons a

theorem Integral.remove (hg : g.Integral) {id : NodeId} {node : Node β}
    (live : g.node? id = some node) :
    ({ g with
      slots := g.slots.set id.index none
      names := g.names.erase node.name
      connections := g.connections.filter fun c => !c.touches id
      isOutdated := true } : Graph β).Integral := by
  have hsub : ({ g with
      slots := g.slots.set id.index none
      names := g.names.erase node.name
      connections := g.connections.filter fun c => !c.touches id
      isOutdated := true } : Graph β).nodes.Sublist g.nodes := filterMap_set_none_sublist _ _
  have hkeep (other : NodeId) (hne : id ≠ other) (t : NodeType β)
      (ht : g.typeOf? other = some t) :
      ({ g with
        slots := g.slots.set id.index none
        names := g.names.erase node.name
        connections := g.connections.filter fun c => !c.touches id
        isOutdated := true } : Graph β).typeOf? other = some t := by
    rw [typeOf?, node?_set_none, if_neg hne]
    exact ht
  refine ⟨fun other n hn => ?_, fun n hn => hg.typed n (hsub.subset hn), fun name other => ?_,
    fun t type max ht hmax => ?_, fun c hc => ?_,
    hg.connections_nodup.sublist List.filter_sublist,
    hg.single_producer.sublist (List.filter_sublist.filter _)⟩
  · rw [node?_set_none] at hn
    split at hn
    · cases hn
    · exact hg.id_eq other n hn
  · rw [node?_set_none]
    change (g.names.erase node.name).find? name = some other ↔ _
    rw [NameIndex.find?_erase]
    have hnamed := hg.named name other
    split
    · next hname =>
      -- the name was that of the node which is gone
      subst hname
      have hid := (hg.named node.name id).mpr ⟨node, live, rfl⟩
      split
      · simp
      · next hne =>
        refine iff_of_false (Option.some_ne_none other).symm fun h => hne ?_
        exact Option.some.inj (hid.symm.trans (hnamed.mpr h))
    · next hname =>
      split
      · next heq =>
        subst heq
        have hother : ¬∃ n, g.node? id = some n ∧ n.name = name := by
          simpa [live] using Ne.symm hname
        exact iff_of_false (hnamed.not.mpr hother) (by simp)
      · exact hnamed
  · exact Nat.le_trans ((hsub.filter _).map _).length_le (hg.limits t type max ht hmax)
  · obtain ⟨hc, htouch⟩ := List.mem_filter.mp hc
    simp only [Connection.touches, Bool.not_eq_true', Bool.or_eq_false_iff, beq_eq_false_iff_ne]
      at htouch
    exact (hg.fits c hc).mono (hkeep _ htouch.1.symm) (hkeep _ htouch.2.symm)

/-! ### Edits of connections -/

/-- Numbers, names, types and limits are kept by an edit of the connections alone, whatever it marks
as outdated. -/
theorem Integral.of_connections (hg : g.Integral) {connections : List Connection} (outdated : Bool)
    (fits : ∀ c ∈ connections, g.Fits c) (nodup : connections.Nodup)
    (single : (connections.filter Connection.isDependency).Pairwise
      fun c d => ¬(c.sink = d.sink ∧ c.sinkPort = d.sinkPort)) :
    ({ g with connections, isOutdated := outdated } : Graph β).Integral :=
  ⟨hg.id_eq, hg.typed, hg.named, hg.limits, fits, nodup, single⟩

theorem forall_mem_append_singleton {α : Type} {P : α → Prop} {l : List α} {a : α}
    (h : ∀ x ∈ l, P x) (ha : P a) : ∀ x ∈ l ++ [a], P x := by
  intro x hx
  rcases List.mem_append.mp hx with hx | hx
  · exact h x hx
  · exact List.mem_singleton.mp hx ▸ ha

theorem Integral.connect (hg : g.Integral) {c : Connection} (fits : g.Fits c)
    (free : ∀ d ∈ g.connections, ¬(d.sink = c.sink ∧ d.sinkPort = c.sinkPort)) :
    ({ g with connections := g.connections ++ [c], isOutdated := true } : Graph β).Integral := by
  refine hg.of_connections true (forall_mem_append_singleton hg.fits fits) ?_ ?_
  · refine List.nodup_append.mpr ⟨hg.connections_nodup, List.nodup_singleton c, ?_⟩
    rintro d hd _ hc rfl
    rw [List.mem_singleton] at hc
    exact free d hd ⟨congrArg _ hc, congrArg _ hc⟩
  · rw [List.filter_append, List.pairwise_append]
    refine ⟨hg.single_producer, List.Pairwise.filter _ (List.pairwise_singleton _ _), ?_⟩
    intro d hd e he
    obtain rfl := List.mem_singleton.mp (List.mem_filter.mp he).1
    exact free d (List.mem_filter.mp hd).1

theorem Integral.connectLoops (hg : g.Integral) {c : Connection}
    (loops : c.carries? = some .loops) (fits : g.Fits c) (fresh : c ∉ g.connections) :
    ({ g with connections := g.connections ++ [c] } : Graph β).Integral := by
  refine hg.of_connections g.isOutdated (forall_mem_append_singleton hg.fits fits) ?_ ?_
  · refine List.nodup_append.mpr ⟨hg.connections_nodup, List.nodup_singleton c, ?_⟩
    rintro d hd _ hc rfl
    exact fresh (List.mem_singleton.mp hc ▸ hd)
  · have hnot : c.isDependency = false := by simp [Connection.isDependency, loops]
    rw [List.filter_append, List.filter_singleton, hnot]
    simpa [dependencies] using hg.single_producer

theorem Integral.disconnect (hg : g.Integral) (c : Connection) (outdated : Bool) :
    ({ g with
      connections := g.connections.filter fun d => d != c, isOutdated := outdated } :
        Graph β).Integral :=
  hg.of_connections outdated (fun d hd => hg.fits d (List.mem_filter.mp hd).1)
    (hg.connections_nodup.sublist List.filter_sublist)
    (hg.single_producer.sublist (List.filter_sublist.filter _))

/-! ### Reachable graphs -/

theorem Integral.new (timer : Timer) (config : CompileConfig) :
    ({ timer, config } : Graph β).Integral := by
  refine ⟨fun id n hn => ?_, ?_, ?_, fun id type max _ _ => Nat.zero_le _, ?_,
    List.nodup_nil, List.Pairwise.nil⟩
  · simp [node?] at hn
  all_goals simp [nodes, nodeNamed?, node?]

theorem Integral.edit (hg : g.Integral) (e : Edit g h) : h.Integral := by
  cases e with
  | registerLoop => exact hg.of_label rfl rfl rfl rfl
  | registerType type => exact hg.registerType type
  | create typeId type name known fresh room => exact hg.create known fresh room
  | remove id node live => exact hg.remove live
  | setParam id => exact hg.of_label rfl (modifyNode_map g id _ _ fun _ _ => rfl) rfl rfl
  | setDevice id => exact hg.of_label rfl (modifyNode_map g id _ _ fun _ _ => rfl) rfl rfl
  | setBehavior id => exact hg.of_label rfl (modifyNode_map g id _ _ fun _ _ => rfl) rfl rfl
  | setConfig => exact hg.of_label rfl rfl rfl rfl
  | connect c dependency fits free => exact hg.connect fits free
  | connectLoops c loops fits fresh => exact hg.connectLoops loops fits fresh
  | disconnect c => exact hg.disconnect c _
  | propagate => exact hg.of_sameShape (propagate_sameShape g)
  | compile => exact hg.of_label rfl rfl rfl rfl
  | advanceClock => exact hg.of_label rfl rfl rfl rfl

theorem Integral.change [Behavior β] (hg : g.Integral) (hc : Change g h) : h.Integral := by
  cases hc with
  | edit e => exact hg.edit e
  | runFrame limit plan override watch =>
    exact hg.of_sameShape (g.runFrame_sameShape limit plan override watch)

theorem Reachable.integral [Behavior β] (hg : Reachable g) : g.Integral :=
  hg.invariant Integral.new fun _ _ h => h.change

end Graph

end FrameGraph
