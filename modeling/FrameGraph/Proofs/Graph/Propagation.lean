import FrameGraph.Proofs.Graph.Parameters
import FrameGraph.Proofs.Graph.Wiring

/-! Loops propagate along paths. A node is subscribed to exactly the loops of the bridges from which
loop connections lead to it, directly or through nodes that are no bridges, whatever cycles the
connections form, in whatever order they are, and whatever the node was subscribed to before. -/

namespace FrameGraph

variable {β : Type}

def Node.unsubscribed (n : Node β) : Node β := { n with subscriptions := [] }

namespace Graph

variable {g h : Graph β} {l : LoopId} {first id : NodeId}

/-- A path of loop connections leads from one node to another, through no bridge on its way. -/
inductive Leads (g : Graph β) (first : NodeId) : NodeId → Prop
  | direct {c : Connection} (mem : c ∈ g.connections) (carries : c.carriesLoops = true)
      (source : c.source = first) : Leads g first c.sink
  | onward {c : Connection} (path : Leads g first c.source)
      (plain : ∀ n, g.node? c.source = some n → n.type ≠ .bridge)
      (mem : c ∈ g.connections) (carries : c.carriesLoops = true) : Leads g first c.sink

/-- A bridge of the loop leads to the node. -/
def Reaches (g : Graph β) (l : LoopId) (id : NodeId) : Prop :=
  ∃ first n, g.node? first = some n ∧ n.type = .bridge ∧ n.loop? = some l ∧ g.Leads first id

def unsubscribed (g : Graph β) : Graph β :=
  { g with slots := g.slots.map (Option.map Node.unsubscribed) }

def LoopsEnd (g : Graph β) : Prop :=
  ∀ c ∈ g.connections, c.carriesLoops = true → (g.node? c.sink).isSome

theorem Integral.loopsEnd (hg : g.Integral) : g.LoopsEnd := fun _ hc _ =>
  Option.isSome_iff_exists.mpr (hg.ends_live hc).2

/-! ### Reachability -/

theorem Leads.live (hpath : g.Leads first id) (hends : g.LoopsEnd) : (g.node? id).isSome := by
  cases hpath with
  | direct mem carries | onward _ _ mem carries => exact hends _ mem carries

/-- The subscriptions of the nodes are the loops that reach them. -/
theorem mem_subscribed (hends : g.LoopsEnd) :
    l ∈ g.subscribed.getD id.index [] ↔ g.Reaches l id := by
  constructor
  · refine subscribed_induct (motive := g.Reaches) (fun c hc hcarries n hn htype l hloop => ?_)
      fun c hc hcarries n hn htype l hreaches => ?_
    · exact ⟨c.source, n, hn, htype, hloop, .direct hc hcarries rfl⟩
    · obtain ⟨first, bridge, hbridge, hkind, hloop, hpath⟩ := hreaches
      refine ⟨first, bridge, hbridge, hkind, hloop, .onward hpath (fun m hm => ?_) hc hcarries⟩
      obtain rfl := Option.some.inj (hn.symm.trans hm)
      exact htype
  · rintro ⟨first, bridge, hbridge, hkind, hloop, hpath⟩
    -- along the path, by what each of its nodes publishes to the next
    induction hpath with
    | direct mem carries source =>
      refine mem_subscribed_of_published mem carries (hends _ mem carries) (mem_published.mpr ?_)
      rw [source]
      exact ⟨bridge, hbridge, .inl ⟨hkind, hloop⟩⟩
    | onward path plain mem carries ih =>
      obtain ⟨n, hn⟩ := Option.isSome_iff_exists.mp (path.live hends)
      exact mem_subscribed_of_published mem carries (hends _ mem carries)
        (mem_published.mpr ⟨n, hn, .inr ⟨plain n hn, ih⟩⟩)

/-! ### Graphs that differ in subscriptions or in the order of connections -/

theorem node?_unsubscribed (g : Graph β) (id : NodeId) :
    g.unsubscribed.node? id = (g.node? id).map Node.unsubscribed := by
  rw [node?_map]
  rfl

theorem propagate_unsubscribed (g : Graph β) : g.unsubscribed.propagate = g.propagate := by
  have hsubscribed : g.unsubscribed.subscribed = g.subscribed := by
    refine subscribed_congr (List.length_map _) (fun id => ?_) rfl
    rw [node?_unsubscribed, Option.map_map]
    rfl
  have hslots : g.unsubscribed.propagate.slots = g.propagate.slots := by
    rw [propagate, propagate, hsubscribed, unsubscribed, List.zip_map_left, List.map_map]
    refine List.map_congr_left fun pair _ => ?_
    obtain ⟨slot, subscriptions⟩ := pair
    cases slot <;> rfl
  calc g.unsubscribed.propagate = { g with slots := g.unsubscribed.propagate.slots } := rfl
    _ = g.propagate := by rw [hslots]; rfl

theorem unsubscribed_propagate (g : Graph β) : g.propagate.unsubscribed = g.unsubscribed := by
  have hslots : g.propagate.unsubscribed.slots = g.unsubscribed.slots :=
    propagate_map g _ fun _ _ => rfl
  calc g.propagate.unsubscribed = { g with slots := g.propagate.unsubscribed.slots } := rfl
    _ = g.unsubscribed := by rw [hslots]; rfl

theorem propagate_congr (hsame : h.unsubscribed = g.unsubscribed) : h.propagate = g.propagate := by
  rw [← propagate_unsubscribed, hsame, propagate_unsubscribed]

/-- Where nodes are the same apart from subscriptions, so are their types and loops. -/
theorem node?_of_unsubscribed (hslots : h.unsubscribed.slots = g.unsubscribed.slots) {n : Node β}
    (hn : h.node? id = some n) :
    ∃ m, g.node? id = some m ∧ m.type = n.type ∧ m.loop? = n.loop? := by
  obtain ⟨m, hm, hsame⟩ := node?_of_view (slots_comp hslots fun n => (n.type, n.loop?)) hn
  obtain ⟨htype, hloop⟩ := Prod.mk.inj hsame
  exact ⟨m, hm, htype, hloop⟩

/-- The second graph has the nodes of the first, apart from subscriptions, and its loop connections,
in whatever order and among others. -/
structure Wider (g h : Graph β) : Prop where
  slots : h.unsubscribed.slots = g.unsubscribed.slots
  loops : ∀ c ∈ g.connections, c.carriesLoops = true → c ∈ h.connections

namespace Wider

theorem leads (hw : Wider g h) (hpath : g.Leads first id) : h.Leads first id := by
  induction hpath with
  | direct mem carries source => exact .direct (hw.loops _ mem carries) carries source
  | onward _ plain mem carries ih =>
    refine .onward ih (fun n hn => ?_) (hw.loops _ mem carries) carries
    obtain ⟨m, hm, htype, _⟩ := node?_of_unsubscribed hw.slots hn
    exact htype ▸ plain m hm

theorem reaches (hw : Wider g h) (hreaches : g.Reaches l id) : h.Reaches l id := by
  obtain ⟨first, n, hn, htype, hloop, hpath⟩ := hreaches
  obtain ⟨m, hm, hkind, hnames⟩ := node?_of_unsubscribed hw.slots.symm hn
  exact ⟨first, m, hm, hkind.trans htype, hnames.trans hloop, hw.leads hpath⟩

end Wider

variable [Behavior β]

/-- Refreshing subscriptions sweeps the loop connections until nothing changes, which it comes to.
Then every node is subscribed to the loops that reach it, each once, and these are registered.
Earlier subscriptions make no difference, so refreshing again changes nothing; nor does the order
of the loop connections, apart from the order of the subscriptions. -/
theorem Reachable.loops_propagate (hg : Reachable g) :
    g.SweepsTo (List.replicate g.slots.length []) g.subscribed ∧
    (∀ id n, g.node? id = some n → ∃ subscriptions, g.subscribed[id.index]? = some subscriptions ∧
      g.propagate.node? id = some { n with subscriptions } ∧
      (∀ l, l ∈ subscriptions ↔ g.Reaches l id) ∧ subscriptions.Nodup ∧
      ∀ l ∈ subscriptions, g.loops.has l = true) ∧
    (∀ h : Graph β, h.unsubscribed = g.unsubscribed → h.propagate = g.propagate) ∧
    g.propagate.propagate = g.propagate ∧
    ∀ h : Graph β, h.unsubscribed.slots = g.unsubscribed.slots →
      (∀ c, c.carriesLoops = true → (c ∈ h.connections ↔ c ∈ g.connections)) →
      ∀ id n m, g.propagate.node? id = some n → h.propagate.node? id = some m →
        ∀ l, l ∈ m.subscriptions ↔ l ∈ n.subscriptions := by
  have hends := hg.integral.loopsEnd
  refine ⟨g.sweepsTo_subscribed, fun id n hn => ?_, fun h hsame => propagate_congr hsame,
    propagate_congr g.unsubscribed_propagate, fun h hslots hconnections id n m hn hm l => ?_⟩
  · have hlt : id.index < g.subscribed.length := by
      rw [length_subscribed]
      exact index_lt_of_node? hn
    have hheld : g.subscribed[id.index]? = some (g.subscribed.getD id.index []) := by
      rw [List.getElem?_eq_getElem hlt, List.getD_eq_getElem _ _ hlt]
    refine ⟨g.subscribed.getD id.index [], hheld, by rw [node?_propagate, hn]; rfl,
      fun l => mem_subscribed hends, nodup_subscribed g id.index, fun l hl => ?_⟩
    obtain ⟨first, bridge, hbridge, htype, hloop, _⟩ := (mem_subscribed hends).mp hl
    exact hg.accepted.bridge_loop (mem_nodes_of_node? hbridge)
      (hg.type?_builtIn (by rw [htype]; rfl)) hloop
  · have hwider : Wider g h := ⟨hslots, fun c hc hcarries => (hconnections c hcarries).mpr hc⟩
    have hback : Wider h g := ⟨hslots.symm, fun c hc hcarries => (hconnections c hcarries).mp hc⟩
    have hends' : h.LoopsEnd := fun c hc hcarries => by
      have hlive := hends c (hback.loops c hc hcarries) hcarries
      obtain ⟨_, hsink⟩ := Option.isSome_iff_exists.mp hlive
      obtain ⟨_, hsink', _⟩ := node?_of_unsubscribed hslots.symm hsink
      exact Option.isSome_iff_exists.mpr ⟨_, hsink'⟩
    rw [node?_propagate] at hn hm
    obtain ⟨_, _, rfl⟩ := Option.map_eq_some_iff.mp hn
    obtain ⟨_, _, rfl⟩ := Option.map_eq_some_iff.mp hm
    exact (mem_subscribed hends').trans
      (Iff.trans ⟨hback.reaches, hwider.reaches⟩ (mem_subscribed hends).symm)

/-- The passes of a relay and the bridges of two loops. Two passes hand the first loop back and
forth and on to the bridge of the second, which drives the third pass. -/
def circuit : Graph Script :=
  let looped := (Command.run relayNodes
    (.registerLoop { name := "audio", timestep := 0.5, cap := 0.5 })).graph
  let bridged := (Command.run looped (.addBridge "beat" ⟨1⟩)).graph
  List.foldl (fun g c => (Command.run g c).graph) bridged
    [.connect ⟨⟨4⟩, .loopOut, ⟨2⟩, .loopIn⟩, .connect ⟨⟨1⟩, .loopOut, ⟨4⟩, .loopIn⟩,
      .connect ⟨⟨0⟩, .loopOut, ⟨1⟩, .loopIn⟩, .connect ⟨⟨1⟩, .loopOut, ⟨0⟩, .loopIn⟩,
      .connect ⟨⟨1⟩, .loopOut, ⟨1⟩, .loopIn⟩, .connect ⟨⟨3⟩, .loopOut, ⟨0⟩, .loopIn⟩]

theorem circuit_reachable : Reachable circuit := by
  have hnodes : Reachable relayNodes :=
    ((((((Reachable.new _ _).run _).run _).run _).run _).run _).run _
  exact ((hnodes.run _).run _).edits _

/-- The first loop goes round and into the bridge of the second, and not through it. -/
theorem circuit_propagates : circuit.Reaches ⟨0⟩ ⟨1⟩ ∧ circuit.Reaches ⟨0⟩ ⟨4⟩ ∧
    circuit.Reaches ⟨1⟩ ⟨2⟩ ∧ ¬circuit.Reaches ⟨0⟩ ⟨2⟩ ∧
    circuit.propagate.propagate = circuit.propagate := by
  obtain ⟨_, hnodes, _, hagain, _⟩ := circuit_reachable.loops_propagate
  have hreaches (id : NodeId) (subscriptions : List LoopId)
      (hheld : (circuit.propagate.node? id).map Node.subscriptions = some subscriptions)
      (l : LoopId) : l ∈ subscriptions ↔ circuit.Reaches l id := by
    cases hn : circuit.node? id with
    | none =>
      rw [node?_propagate, hn] at hheld
      cases hheld
    | some n =>
      obtain ⟨_, _, hrefreshed, hmem, _⟩ := hnodes id n hn
      rw [hrefreshed] at hheld
      obtain rfl := Option.some.inj hheld
      exact hmem l
  have hpass := hreaches ⟨1⟩ [⟨0⟩] (by decide +kernel)
  have hbeat := hreaches ⟨4⟩ [⟨0⟩] (by decide +kernel)
  have hblur := hreaches ⟨2⟩ [⟨1⟩] (by decide +kernel)
  exact ⟨(hpass ⟨0⟩).mp (by decide), (hbeat ⟨0⟩).mp (by decide), (hblur ⟨1⟩).mp (by decide),
    fun h => absurd ((hblur ⟨0⟩).mpr h) (by decide), hagain⟩

end Graph

end FrameGraph
