import FrameGraph.Proofs.Graph.Devices
import FrameGraph.Proofs.Graph.Renaming

/-! Pinning what was inferred. A node that is pinned to the device on which a plan places it
leaves every node where it was: its consumers inherit from it what they inherited before.
Everything after inference takes the devices from its result, so the plan stays the same,
for any choice of nodes to pin. Once none is unpinned the default device is never asked. -/

namespace FrameGraph

/-- Things keep the devices that they resolve to when some of them are pinned to theirs. -/
theorem Devices.Resolves.repin {ι : Type*} {pinned pinned' : ι → Option Device}
    {feeds : ι → ι → Prop} {fallback : Device}
    (h : ∀ j e, Resolves pinned feeds fallback j e → pinned' j = pinned j ∨ pinned' j = some e)
    {i : ι} {d : Device} (hd : Resolves pinned feeds fallback i d) :
    Resolves pinned' feeds fallback i d := by
  rcases h i d hd with hkept | hset
  case inr => exact .pinned hset
  -- what is not pinned anew inherits from producers that have kept their devices
  induction hd with
  | pinned hpin => exact .pinned (hkept.trans hpin)
  | inherited hpin fed agree ih =>
    refine .inherited (hkept.trans hpin) fed fun p hp => ?_
    rcases h p _ (agree p hp) with hkept | hset
    · exact ih p hp hkept
    · exact .pinned hset
  | unfed hpin unfed => exact .unfed (hkept.trans hpin) unfed

/-- Cells that resolve to the devices of a schedule, however they are pinned, have that schedule. -/
theorem Netlist.schedule_relabel_of_resolves {net : Netlist} {fallback fallback' : Device}
    {ρ : NodeId → NodeId} {pin : Cell → Option Device} (hs : net.Sound) {s : Schedule}
    (h : net.schedule fallback = .ok s)
    (hres : ∀ i < net.cells.length,
      (net.relabel ρ pin).Resolves fallback' i (s.layout.deviceOf i)) :
    (net.relabel ρ pin).schedule fallback' = .ok (s.relabel ρ pin) := by
  have hsize : (net.relabel ρ pin).cells.length = net.cells.length := List.length_map _
  have hinfer (first : List (List Nat))
      (sorted : Waves.sort net.cells.length net.dependencies = .ok first) :
      Devices.infer (net.relabel ρ pin) fallback' first.flatten =
        Devices.infer net fallback first.flatten := by
    have hends := net.schedule_scheduled fallback
    rw [h] at hends
    cases hends with
    | ok _ sorted' inferred _ =>
      obtain rfl := Except.ok.inj (sorted'.symm.trans sorted)
      have hlength := (infer_resolves hs sorted inferred).1
      rw [inferred]
      refine Devices.infer_eq_ok _ ?_ ?_ (hlength.trans hsize.symm) ?_
      · exact hsize ▸ Waves.flatten_perm hs.dependencies_within sorted
      · exact fun _ _ _ hsplit _ hp => producers_before hs sorted hsplit hp
      · exact fun i hi => hres i (hsize ▸ hi)
  rw [net.schedule_relabel ρ pin hinfer, h]
  rfl

namespace Graph

variable {β : Type} {g h : Graph β} {config : CompileConfig} {p : Plan}

/-- Graphs that correspond, whose nodes resolve to the devices on which a plan places them, have
that plan. -/
theorem Corresponds.planFor_of_resolves (hc : Corresponds id g h) (hg : g.Integral)
    (hh : h.Integral) (hp : g.planFor config = .ok p) {fallback : Device}
    (hres : ∀ id d, p.deviceOf? id = some d → h.Resolves fallback id d) :
    h.planFor { config with defaultDevice := fallback } = .ok p := by
  obtain ⟨s, hs, rfl⟩ := hg.planFor_eq_ok.mp hp
  obtain ⟨hnet, hv⟩ := Netlist.schedule_valid hg.wiring_sound hs
  have hwiring := hc.wiring_eq hg hh
  have hschedule : h.wiring.schedule fallback = .ok (s.relabel id (h.pinOf id)) := by
    rw [hwiring]
    refine Netlist.schedule_relabel_of_resolves hg.wiring_sound hs fun i hi => ?_
    obtain ⟨n, _, hn, _, _, hindex⟩ := hg.node?_of_cell (List.getElem?_eq_getElem hi)
    have hplaced := hg.deviceOf?_eq config hnet hv hn
    rw [hindex] at hplaced
    have hplace : h.cellIndex (g.wiring.cells[i]).id = i :=
      (hc.cellIndex_eq hg hh hn).trans hindex
    have hresolves := hh.resolves_iff.mpr (hres _ _ hplaced)
    rwa [hplace, hwiring] at hresolves
  refine hh.planFor_eq_ok.mpr ⟨_, hschedule, ?_⟩
  rw [Schedule.plan_relabel id _ (hnet ▸ hg.wiring_sound), Plan.rename_id]
  rfl

/-! ### Pinning nodes of a plan -/

/-- Pin the listed nodes to the devices on which a plan places them, until one is refused. -/
def pinTo (g : Graph β) (p : Plan) : List NodeId → Graph β × Except GraphError Unit
  | [] => (g, .ok ())
  | id :: ids =>
    match g.setDevice id (p.deviceOf? id) with
    | (next, .error e) => (next, .error e)
    | (next, .ok ()) => next.pinTo p ids

/-- The graphs differ in the listed nodes, which are pinned to where the plan places them. -/
structure PinnedTo (p : Plan) (ids : List NodeId) (g h : Graph β) : Prop where
  types : h.types = g.types
  connections : h.connections = g.connections
  node : ∀ id, h.node? id =
    (g.node? id).map fun n => if id ∈ ids then { n with device := p.deviceOf? id } else n

theorem Reachable.setDevice [Behavior β] (hg : Reachable g) {id : NodeId} {device : Option Device}
    (hset : g.setDevice id device = (h, .ok ())) : Reachable h := by
  have hrun := hg.run (.setDevice id device)
  rwa [Command.run, hset] at hrun

theorem exists_pinnedTo (p : Plan) {id : NodeId} (hlive : (g.node? id).isSome) :
    ∃ q, g.setDevice id (p.deviceOf? id) = (q, .ok ()) ∧ PinnedTo p [id] g q := by
  obtain ⟨n, hn⟩ := Option.isSome_iff_exists.mp hlive
  have hset : g.setDevice id (p.deviceOf? id) =
      ({ g.modifyNode id fun n => { n with device := p.deviceOf? id } with isOutdated := true },
        .ok ()) := by
    rw [setDevice, hn]
  refine ⟨_, hset, rfl, rfl, fun other => ?_⟩
  change (g.modifyNode id fun n => { n with device := p.deviceOf? id }).node? other = _
  rw [node?_modifyNode]
  by_cases heq : other = id
  · simp [heq]
  · simp [heq, Ne.symm heq]

theorem PinnedTo.trans {a b : List NodeId} {k : Graph β} (hgh : PinnedTo p a g h)
    (hhk : PinnedTo p b h k) : PinnedTo p (a ++ b) g k := by
  refine ⟨hhk.types.trans hgh.types, hhk.connections.trans hgh.connections, fun id => ?_⟩
  rw [hhk.node, hgh.node, Option.map_map]
  refine Option.map_congr fun n _ => ?_
  by_cases ha : id ∈ a <;> by_cases hb : id ∈ b <;> simp [ha, hb]

theorem Reachable.pinTo_ok [Behavior β] (hg : Reachable g) (p : Plan) {ids : List NodeId}
    (hlive : ∀ id ∈ ids, (g.node? id).isSome) :
    ∃ q, g.pinTo p ids = (q, .ok ()) ∧ Reachable q ∧ PinnedTo p ids g q := by
  induction ids generalizing g with
  | nil => exact ⟨g, rfl, hg, rfl, rfl, fun id => by simp⟩
  | cons id ids ih =>
    obtain ⟨next, hset, hnext⟩ := exists_pinnedTo p (hlive id (by simp))
    have hrest (other : NodeId) (hmem : other ∈ ids) : (next.node? other).isSome := by
      rw [hnext.node, Option.isSome_map]
      exact hlive other (by simp [hmem])
    obtain ⟨q, hq, hreachable, hpinned⟩ := ih (hg.setDevice hset) hrest
    refine ⟨q, ?_, hreachable, hnext.trans hpinned⟩
    rw [pinTo, hset]
    exact hq

namespace PinnedTo

variable {ids : List NodeId} (hpinned : PinnedTo p ids g h)
include hpinned

theorem corresponds : Corresponds id g h := by
  refine ⟨hpinned.types, fun id n hn => ?_, fun b hb => ⟨b, ?_, rfl⟩, fun _ _ _ _ hlt => hlt, ?_⟩
  · refine ⟨_, (hpinned.node id).trans (congrArg _ hn), ?_⟩
    dsimp only
    split <;> exact ⟨rfl, rfl, fun _ _ _ _ => rfl⟩
  · rwa [hpinned.node, Option.isSome_map] at hb
  · rw [hpinned.connections, Connection.rename_id, List.map_id]

theorem device_of_mem {id : NodeId} (hmem : id ∈ ids) (hlive : (g.node? id).isSome) :
    (h.node? id).bind Node.device = p.deviceOf? id := by
  obtain ⟨n, hn⟩ := Option.isSome_iff_exists.mp hlive
  simp [hpinned.node, hn, hmem]

theorem device_of_not_mem {id : NodeId} (hmem : id ∉ ids) :
    (h.node? id).bind Node.device = (g.node? id).bind Node.device := by
  simp [hpinned.node, hmem]

theorem feedsData : h.FeedsData = g.FeedsData := by
  funext a b
  rw [FeedsData, hpinned.connections, FeedsData]

/-- Nodes resolve to where the plan places them, under the same default. -/
theorem resolves (hg : g.Integral) (hp : g.planFor config = .ok p) {id : NodeId} {d : Device}
    (hd : p.deviceOf? id = some d) : h.Resolves config.defaultDevice id d := by
  rw [Resolves, hpinned.feedsData]
  refine Devices.Resolves.repin (fun j e he => ?_) ((hg.deviceOf?_eq_some hp).mp hd).2
  by_cases hmem : j ∈ ids
  · by_cases hlive : (g.node? j).isSome
    · have hplaced : p.deviceOf? j = some e := (hg.deviceOf?_eq_some hp).mpr ⟨hlive, he⟩
      exact .inr ((hpinned.device_of_mem hmem hlive).trans hplaced)
    · refine .inl ?_
      rw [Option.not_isSome_iff_eq_none] at hlive
      rw [hpinned.node, hlive]
      rfl
  · exact .inl (hpinned.device_of_not_mem hmem)

/-- Where every node is pinned the default does not count. -/
theorem resolves_of_all (hg : g.Integral) (hp : g.planFor config = .ok p)
    (hall : ∀ n ∈ g.nodes, n.device = none → n.id ∈ ids) (fallback : Device) {id : NodeId}
    {d : Device} (hd : p.deviceOf? id = some d) : h.Resolves fallback id d := by
  obtain ⟨hlive, hresolves⟩ := (hg.deviceOf?_eq_some hp).mp hd
  refine .pinned ?_
  by_cases hmem : id ∈ ids
  · exact (hpinned.device_of_mem hmem hlive).trans hd
  · obtain ⟨n, hn⟩ := Option.isSome_iff_exists.mp hlive
    cases hdevice : n.device with
    | none => exact absurd (hg.id_eq id n hn ▸ hall n (mem_nodes_of_node? hn) hdevice) hmem
    | some e =>
      have hpin : (g.node? id).bind Node.device = some e := by rw [hn, Option.bind_some, hdevice]
      rw [hpinned.device_of_not_mem hmem, hpin, hresolves.unique (.pinned hpin)]

end PinnedTo

/-! ### Reachable graphs -/

/-- When any live nodes are pinned to where the plan of a reachable graph places them, the graph
compiles to that plan again, and when no other node was unpinned, whatever the default device. -/
theorem Reachable.planFor_pinTo [Behavior β] (hg : Reachable g) (hp : g.planFor config = .ok p)
    {ids : List NodeId} (hlive : ∀ id ∈ ids, (g.node? id).isSome) :
    (∀ id ∈ ids, (p.deviceOf? id).isSome) ∧
    ∃ q, g.pinTo p ids = (q, .ok ()) ∧ Reachable q ∧ PinnedTo p ids g q ∧
      q.planFor config = .ok p ∧
      ((∀ n ∈ g.nodes, n.device = none → n.id ∈ ids) →
        ∀ d, q.planFor { config with defaultDevice := d } = .ok p) := by
  have hi := hg.integral
  obtain ⟨q, hq, hreachable, hpinned⟩ := hg.pinTo_ok p hlive
  have hplan {fallback : Device}
      (hres : ∀ id d, p.deviceOf? id = some d → q.Resolves fallback id d) :
      q.planFor { config with defaultDevice := fallback } = .ok p :=
    hpinned.corresponds.planFor_of_resolves hi hreachable.integral hp hres
  exact ⟨fun id hid => (hi.deviceOf?_isSome hp id).trans (hlive id hid), q, hq, hreachable, hpinned,
    hplan fun _ _ => hpinned.resolves hi hp,
    fun hall d => hplan fun _ _ => hpinned.resolves_of_all hi hp hall d⟩

/-- The last pass of the chain and its gate, pinned to where the plan places them, stay there under
another default device. The gate, left unpinned, would go with the default. -/
theorem chain_pinned : ∃ p q, chain.planFor {} = .ok p ∧
    p.deviceOf? ⟨2⟩ = some ⟨1⟩ ∧ p.deviceOf? ⟨3⟩ = some ⟨0⟩ ∧
    chain.pinTo p [⟨2⟩, ⟨3⟩] = (q, .ok ()) ∧ PinnedTo p [⟨2⟩, ⟨3⟩] chain q ∧
    q.planFor {} = .ok p ∧ q.planFor { defaultDevice := ⟨7⟩ } = .ok p ∧
    (chain.planFor { defaultDevice := ⟨7⟩ }).map (fun p => p.deviceOf? ⟨3⟩) = .ok (some ⟨7⟩) := by
  have hdevices : (chain.planFor {}).map (fun p => (p.deviceOf? ⟨2⟩, p.deviceOf? ⟨3⟩)) =
      .ok (some ⟨1⟩, some ⟨0⟩) := by decide +kernel
  obtain ⟨p, hp, hplaced⟩ := exists_of_map_eq_ok hdevices
  obtain ⟨hsecond, hthird⟩ := Prod.mk.inj hplaced
  have hlive : ∀ id ∈ [(⟨2⟩ : NodeId), ⟨3⟩], (chain.node? id).isSome := by decide +kernel
  have hall : ∀ n ∈ chain.nodes, n.device = none → n.id ∈ [(⟨2⟩ : NodeId), ⟨3⟩] := by
    decide +kernel
  obtain ⟨_, q, hq, _, hpinned, hsame, hother⟩ := chain_reachable.planFor_pinTo hp hlive
  exact ⟨p, q, hp, hsecond, hthird, hq, hpinned, hsame, hother hall ⟨7⟩, by decide +kernel⟩

end Graph

end FrameGraph
