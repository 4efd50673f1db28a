import FrameGraph.Proofs.Frame.Passes
import FrameGraph.Proofs.Graph.Supply
import FrameGraph.Proofs.Graph.Sweeps

/-! Graphs side by side. Peers have the same nodes and connections, on whatever devices and under
whatever plans and loops; what their nodes hold may differ. They subscribe their nodes to the same
loops, and where the producers of a node hold the same in both, so do the values
that the node is supplied with. -/

namespace FrameGraph

variable {β : Type}

/-- What a node holds between its turns. -/
def Node.held (n : Node β) : Option (Work β) × List Value := (n.work, n.outputs)

/-- A node without its device and what an invocation changes. -/
def Node.station (n : Node β) : Node β := { n with outputs := [], work := none, device := none }

namespace Graph

/-- Two graphs have the same nodes, connections and timer, apart from devices and from what the
nodes hold. -/
structure Peers (g h : Graph β) : Prop where
  types : h.types = g.types
  connections : h.connections = g.connections
  timer : h.timer = g.timer
  frame : h.frame = g.frame
  slots : h.slots.map (Option.map Node.station) = g.slots.map (Option.map Node.station)

def HoldsAlike (g h : Graph β) (id : NodeId) : Prop :=
  (h.node? id).map Node.held = (g.node? id).map Node.held

/-- The values that are connected to the first inputs of a node, empty where there is none. -/
def supplied (g : Graph β) (id : NodeId) (count : Nat) : List Value :=
  (List.range count).map fun input => ((g.feeder? id (.data input)).map g.read).getD .empty

theorem getD_supplied (g : Graph β) (id : NodeId) {count input : Nat} (h : input < count) :
    (g.supplied id count).getD input .empty =
      ((g.feeder? id (.data input)).map g.read).getD .empty := by
  rw [supplied, List.getD_eq_getElem?_getD, List.getElem?_map, List.getElem?_range h,
    Option.map_some, Option.getD_some]

variable {g h g' h' : Graph β} {id : NodeId}

theorem HoldsAlike.read (hid : HoldsAlike g h id) (output : Nat) :
    h.read (.output id output) = g.read (.output id output) := by
  have hread (k : Graph β) : k.read (.output id output) =
      (((k.node? id).map Node.held).bind fun held => held.2[output]?).getD .empty := by
    rw [Graph.read, Option.bind_map]
    rfl
  rw [hread, hread, hid]

theorem SamePass.feeder? (hs : SamePass g h) : h.feeder? = g.feeder? := by
  funext id port
  rw [Graph.feeder?, Graph.feeder?, dependencies, dependencies, hs.connections]

/-- Where the producers of a node hold the same, it is supplied with the same values. -/
theorem read_feeder
    (hproducers : ∀ c ∈ g.dependencies, c.sink = id → HoldsAlike g h c.source) {port : Port}
    {source : Source} (hsource : g.feeder? id port = some source) :
    h.read source = g.read source := by
  obtain ⟨c, hc, hsink, output, rfl⟩ := feeder?_source hsource
  exact (hproducers c hc hsink).read output

namespace Peers

theorem node? (hp : Peers g h) (id : NodeId) :
    (h.node? id).map Node.station = (g.node? id).map Node.station := by
  rw [node?_map, node?_map, hp.slots]

theorem type? (hp : Peers g h) (id : TypeId) : h.type? id = g.type? id := by
  rw [Graph.type?, Graph.type?, hp.types]

theorem node?_isSome (hp : Peers g h) (id : NodeId) :
    (h.node? id).isSome = (g.node? id).isSome := by
  simpa using congrArg Option.isSome (hp.node? id)

theorem holdsAlike_of_gone (hp : Peers g h) (hgone : ¬(g.node? id).isSome) :
    HoldsAlike g h id := by
  have hgone' : ¬(h.node? id).isSome := by rwa [hp.node?_isSome]
  rw [Option.not_isSome_iff_eq_none] at hgone hgone'
  rw [HoldsAlike, hgone, hgone']

theorem dependencies (hp : Peers g h) : h.dependencies = g.dependencies := by
  rw [Graph.dependencies, Graph.dependencies, hp.connections]

theorem feeder? (hp : Peers g h) : h.feeder? = g.feeder? := by
  funext id port
  rw [Graph.feeder?, Graph.feeder?, hp.dependencies]

theorem samePass (hp : Peers g h) (hg : SamePass g g') (hh : SamePass h h') : Peers g' h' := by
  have hstation {k k' : Graph β} (hk : SamePass k k') :
      k'.slots.map (Option.map Node.station) = k.slots.map (Option.map Node.station) :=
    slots_comp hk.slots Node.station
  refine ⟨?_, ?_, ?_, ?_, ?_⟩
  · rw [hg.types, hh.types, hp.types]
  · rw [hg.connections, hh.connections, hp.connections]
  · rw [hg.timer, hh.timer, hp.timer]
  · rw [hg.frame, hh.frame, hp.frame]
  · rw [hstation hg, hstation hh, hp.slots]

theorem isCombinational (hp : Peers g h) (id : NodeId) :
    h.isCombinational id = g.isCombinational id := by
  have hnode := congrArg (Option.map Node.type) (hp.node? id)
  rw [Option.map_map, Option.map_map] at hnode
  rw [Graph.isCombinational, Graph.isCombinational, typeOf?_congr hp.types hnode]

theorem supplied (hp : Peers g h)
    (hproducers : ∀ c ∈ g.dependencies, c.sink = id → HoldsAlike g h c.source) (count : Nat) :
    h.supplied id count = g.supplied id count := by
  refine List.map_congr_left fun input _ => ?_
  rw [hp.feeder?]
  cases hsource : g.feeder? id (.data input) with
  | none => rfl
  | some source => simp [read_feeder hproducers hsource]

/-! ### Subscriptions -/

theorem subscribed (hp : Peers g h) : h.subscribed = g.subscribed := by
  refine subscribed_congr (by simpa using congrArg List.length hp.slots) (fun id => ?_)
    hp.connections
  have hnode := congrArg (Option.map fun n => (n.type, n.loop?)) (hp.node? id)
  rwa [Option.map_map, Option.map_map] at hnode

theorem propagate (hp : Peers g h) : Peers g.propagate h.propagate := by
  have hslots (k : Graph β) : k.propagate.slots.map (Option.map Node.station) =
      ((k.slots.map (Option.map Node.station)).zip k.subscribed).map fun pair =>
        pair.1.map fun n => { n with subscriptions := pair.2 } := by
    rw [Graph.propagate, List.zip_map_left, List.map_map, List.map_map]
    refine List.map_congr_left fun pair _ => ?_
    obtain ⟨slot, subscriptions⟩ := pair
    cases slot <;> rfl
  refine ⟨hp.types, hp.connections, hp.timer, hp.frame, ?_⟩
  rw [hslots, hslots, hp.subscribed, hp.slots]

end Peers

/-- Refreshing subscriptions changes nothing that a node holds. -/
theorem node?_propagate_held (g : Graph β) (id : NodeId) :
    (g.propagate.node? id).map Node.held = (g.node? id).map Node.held := by
  rw [node?_map, node?_map, propagate_map g _ fun _ _ => rfl]

end Graph

end FrameGraph
