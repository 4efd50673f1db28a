import FrameGraph.Proofs.Graph.Acceptance
import FrameGraph.Proofs.Graph.Routing

/-! Device inference, seen from its graph. A plan places the nodes by the one assignment that
gives each its own device, else that of its data producers, else the default; gates and
loops have no say in it. Where producers disagree, the conflict that is reported is that
of the first such node in the layered order of the nodes, where the chains of dependencies
that end at a node decide, and then its number. -/

namespace FrameGraph

/-- The devices that inference finds, in the order of the first sort, are those that the cells
resolve to. -/
theorem Netlist.infer_resolves {net : Netlist} {fallback : Device} (hs : net.Sound)
    {first : List (List Nat)} (sorted : Waves.sort net.cells.length net.dependencies = .ok first)
    {devices : List Device} (inferred : Devices.infer net fallback first.flatten = .ok devices) :
    devices.length = net.cells.length ∧
      ∀ i < net.cells.length, net.Resolves fallback i (devices.getD i .primary) := by
  have hspec := Devices.infer_spec net fallback first.flatten
    (Waves.flatten_perm hs.dependencies_within sorted) fun _ _ _ hsplit _ hp =>
      producers_before hs sorted hsplit hp
  rw [inferred] at hspec
  exact hspec

theorem Netlist.schedule_resolves {net : Netlist} {fallback : Device} {s : Schedule}
    (hs : net.Sound) (h : net.schedule fallback = .ok s) {i : Nat} (hi : i < net.cells.length) :
    net.Resolves fallback i (s.layout.deviceOf i) := by
  have hends := net.schedule_scheduled fallback
  rw [h] at hends
  cases hends with
  | ok _ sorted inferred _ => exact (infer_resolves hs sorted inferred).2 i hi

/-- The conflict that fails a compilation, with the order in which the cells were visited. -/
theorem Netlist.schedule_conflict {net : Netlist} {fallback : Device} {name : String}
    {devices : List Device} (h : net.schedule fallback = .error (.deviceConflict name devices)) :
    ∃ first c, Waves.sort net.cells.length net.dependencies = .ok first ∧
      Devices.infer net fallback first.flatten = .error c ∧
      name = (net.cells[c.cell]?.map Cell.name).getD "" ∧ devices = c.devices := by
  have hends := net.schedule_scheduled fallback
  rw [h] at hends
  cases hends with
  | conflict _ sorted inferred => exact ⟨_, _, sorted, inferred, rfl, rfl⟩

namespace Graph

variable {β : Type} {g : Graph β}

/-- Every live node has the device that it is pinned to, else that of all its data producers, else
the default. -/
structure Infers (g : Graph β) (fallback : Device) (device : NodeId → Device) : Prop where
  pinned : ∀ n ∈ g.nodes, ∀ d, n.device = some d → device n.id = d
  inherited : ∀ n ∈ g.nodes, n.device = none → ∀ p, g.FeedsData p n.id → device p = device n.id
  unfed : ∀ n ∈ g.nodes, n.device = none → (∀ p, ¬g.FeedsData p n.id) → device n.id = fallback

/-- The data producers of an unpinned node resolve to different devices. -/
def IsAmbiguous (g : Graph β) (fallback : Device) (n : Node β) : Prop :=
  n.device = none ∧ ∃ p q d e, g.FeedsData p n.id ∧ g.FeedsData q n.id ∧
    g.Resolves fallback p d ∧ g.Resolves fallback q e ∧ d ≠ e

/-- The layered order of the nodes: by the longest chain of dependencies that ends at a node, then
by number. -/
def Earlier (g : Graph β) (a b : NodeId) : Prop :=
  ∃ j k, IsGreatest {m | ChainTo g.Feeds m a} j ∧ IsGreatest {m | ChainTo g.Feeds m b} k ∧
    (j < k ∨ j = k ∧ a.index < b.index)

/-- A node is the first whose device is ambiguous, between the listed devices. -/
structure FirstConflict (g : Graph β) (fallback : Device) (n : Node β) (devices : List Device) :
    Prop where
  ambiguous : g.IsAmbiguous fallback n
  first : ∀ m ∈ g.nodes, g.IsAmbiguous fallback m → m = n ∨ g.Earlier n.id m.id
  resolved : ∀ p, g.FeedsData p n.id → ∃ d, g.Resolves fallback p d
  mem_devices : ∀ d, d ∈ devices ↔ ∃ p, g.FeedsData p n.id ∧ g.Resolves fallback p d
  sorted : devices.Pairwise fun d e => d.index < e.index
  several : 2 ≤ devices.length

/-! ### The assignment -/

theorem FeedsData.live (hg : g.Integral) {a b : NodeId} (h : g.FeedsData a b) :
    (∃ n, g.node? a = some n) ∧ ∃ n, g.node? b = some n := by
  obtain ⟨c, hc, _, rfl, rfl⟩ := h
  exact hg.ends_live hc

theorem Resolves.producer (hg : g.Integral) {fallback d : Device} {n : Node β} (hn : n ∈ g.nodes)
    (hnone : n.device = none) (h : g.Resolves fallback n.id d) {p : NodeId}
    (hp : g.FeedsData p n.id) : g.Resolves fallback p d := by
  refine Devices.Resolves.of_feeds ?_ hp h
  simp only [hg.node?_id hn, Option.bind_some, hnone]

theorem Infers.eq_of_resolves (hg : g.Integral) {fallback d : Device} {device : NodeId → Device}
    (hd : g.Infers fallback device) {id : NodeId} (hlive : ∃ n, g.node? id = some n)
    (h : g.Resolves fallback id d) : device id = d := by
  have hpin {i : NodeId} {n : Node β} (hn : g.node? i = some n) :
      (g.node? i).bind Node.device = n.device := by rw [hn, Option.bind_some]
  induction h with
  | @pinned i d h =>
    obtain ⟨n, hn⟩ := hlive
    have hpinned := hd.pinned n (mem_nodes_of_node? hn) d ((hpin hn).symm.trans h)
    rwa [hg.id_eq i n hn] at hpinned
  | @inherited i d h fed agree ih =>
    obtain ⟨n, hn⟩ := hlive
    obtain ⟨p, hp⟩ := fed
    have hsame := hd.inherited n (mem_nodes_of_node? hn) ((hpin hn).symm.trans h) p
      (by rwa [hg.id_eq i n hn])
    rw [hg.id_eq i n hn] at hsame
    exact hsame.symm.trans (ih p hp (FeedsData.live hg hp).1)
  | @unfed i h unfed =>
    obtain ⟨n, hn⟩ := hlive
    have hdefault := hd.unfed n (mem_nodes_of_node? hn) ((hpin hn).symm.trans h)
      (by rwa [hg.id_eq i n hn])
    rwa [hg.id_eq i n hn] at hdefault

/-- What all live nodes resolve to is an assignment. -/
theorem Infers.of_resolves (hg : g.Integral) {fallback : Device} {device : NodeId → Device}
    (h : ∀ id, (g.node? id).isSome → g.Resolves fallback id (device id)) :
    g.Infers fallback device := by
  have hlive {n : Node β} (hn : n ∈ g.nodes) : g.Resolves fallback n.id (device n.id) :=
    h n.id (by rw [hg.node?_id hn]; rfl)
  have hpin {n : Node β} (hn : n ∈ g.nodes) : (g.node? n.id).bind Node.device = n.device := by
    rw [hg.node?_id hn, Option.bind_some]
  refine ⟨fun n hn d hd => ?_, fun n hn hnone p hp => ?_, fun n hn hnone hunfed => ?_⟩
  · exact (hlive hn).unique (.pinned ((hpin hn).trans hd))
  · obtain ⟨⟨m, hm⟩, _⟩ := FeedsData.live hg hp
    exact (h p (by rw [hm]; rfl)).unique ((hlive hn).producer hg hn hnone hp)
  · exact (hlive hn).unique (.unfed ((hpin hn).trans hnone) hunfed)

variable {s : Schedule} {config : CompileConfig}

/-- A plan places the live nodes, each on the device that it resolves to. -/
theorem Integral.deviceOf?_eq_some (hg : g.Integral) {p : Plan} (h : g.planFor config = .ok p)
    {id : NodeId} {d : Device} :
    p.deviceOf? id = some d ↔ (g.node? id).isSome ∧ g.Resolves config.defaultDevice id d := by
  obtain ⟨s, hs, rfl⟩ := hg.planFor_eq_ok.mp h
  obtain ⟨hnet, hv⟩ := Netlist.schedule_valid hg.wiring_sound hs
  have hresolves {n : Node β} (hn : g.node? id = some n) : g.Resolves config.defaultDevice id
      (s.layout.deviceOf (g.cellIndex id)) := by
    obtain ⟨type, htype⟩ := hg.type?_isSome (mem_nodes_of_node? hn)
    exact hg.resolves_iff.mp (Netlist.schedule_resolves hg.wiring_sound hs
      (Netlist.lt_of_getElem? (hg.cells_cellIndex hn htype)))
  constructor
  · intro hd
    obtain ⟨i, hi, rfl⟩ := Schedule.exists_cell_of_deviceOf? hd
    obtain ⟨n, hn, hid⟩ := List.mem_map.mp
      ((hg.ids_eq_range hnet).symm ▸ List.mem_map_of_mem (List.mem_range.mpr hi))
    rw [← hid] at hd hresolves ⊢
    have hlive := hg.node?_id hn
    rw [hg.deviceOf?_eq config hnet hv hlive, Option.some.injEq] at hd
    exact ⟨by rw [hlive]; rfl, hd ▸ hresolves hlive⟩
  · rintro ⟨hsome, hd⟩
    obtain ⟨n, hn⟩ := Option.isSome_iff_exists.mp hsome
    rw [hg.deviceOf?_eq config hnet hv hn, (hresolves hn).unique hd]

theorem Integral.deviceOf?_isSome (hg : g.Integral) {p : Plan} (h : g.planFor config = .ok p)
    (id : NodeId) : (p.deviceOf? id).isSome = (g.node? id).isSome := by
  rw [Bool.eq_iff_iff]
  constructor
  · intro hplaced
    obtain ⟨d, hd⟩ := Option.isSome_iff_exists.mp hplaced
    exact ((hg.deviceOf?_eq_some h).mp hd).1
  · intro hlive
    obtain ⟨n, hn⟩ := Option.isSome_iff_exists.mp hlive
    obtain ⟨s, rfl, hnet, hv⟩ := hg.exists_schedule h
    rw [hg.deviceOf?_eq config hnet hv hn]
    rfl

/-- The devices of a plan are the only assignment. -/
theorem Integral.infers_unique (hg : g.Integral) {p : Plan} (h : g.planFor config = .ok p) :
    ∃ device, g.Infers config.defaultDevice device ∧
      (∀ n ∈ g.nodes, p.deviceOf? n.id = some (device n.id)) ∧
      ∀ other, g.Infers config.defaultDevice other → ∀ n ∈ g.nodes, other n.id = device n.id := by
  have hplaced {id : NodeId} (hlive : (g.node? id).isSome) :
      p.deviceOf? id = some ((p.deviceOf? id).getD .primary) := by
    obtain ⟨d, hd⟩ := Option.isSome_iff_exists.mp ((hg.deviceOf?_isSome h id).trans hlive)
    rw [hd, Option.getD_some]
  have hresolves {id : NodeId} (hlive : (g.node? id).isSome) :
      g.Resolves config.defaultDevice id ((p.deviceOf? id).getD .primary) :=
    ((hg.deviceOf?_eq_some h).mp (hplaced hlive)).2
  have hlive {n : Node β} (hn : n ∈ g.nodes) : (g.node? n.id).isSome := by
    rw [hg.node?_id hn]
    rfl
  exact ⟨_, .of_resolves hg fun _ => hresolves, fun n hn => hplaced (hlive hn), fun _ hother n hn =>
    hother.eq_of_resolves hg ⟨n, hg.node?_id hn⟩ (hresolves (hlive hn))⟩

theorem Integral.deviceOf?_congr {h : Graph β} {settings : CompileConfig} (hg : g.Integral)
    (hh : h.Integral) {p q : Plan} (hp : g.planFor config = .ok p) (hq : h.planFor settings = .ok q)
    (hdefault : settings.defaultDevice = config.defaultDevice)
    (hpins : ∀ id, (h.node? id).map Node.device = (g.node? id).map Node.device)
    (hfeeds : ∀ a b, h.FeedsData a b ↔ g.FeedsData a b) (id : NodeId) :
    q.deviceOf? id = p.deviceOf? id := by
  have hlive : (h.node? id).isSome = (g.node? id).isSome := by
    rw [← Option.isSome_map, hpins, Option.isSome_map]
  have hresolves (d : Device) :
      h.Resolves settings.defaultDevice id d ↔ g.Resolves config.defaultDevice id d := by
    have hpin (i : NodeId) : (h.node? i).bind Node.device = (g.node? i).bind Node.device := by
      simpa only [Option.bind_map, Function.comp_def] using congrArg (·.bind fun d => d) (hpins i)
    have hfeeds' : h.FeedsData = g.FeedsData :=
      funext fun a => funext fun b => propext (hfeeds a b)
    simp only [Resolves, hdefault, hpin, hfeeds']
  refine Option.ext fun d => ?_
  rw [hh.deviceOf?_eq_some hq, hg.deviceOf?_eq_some hp, hlive, hresolves]

/-! ### The layered order -/

theorem Integral.chainTo_iff (hg : g.Integral) {id : NodeId} {k : Nat} :
    ChainTo (Waves.Joined g.wiring.dependencies) k (g.cellIndex id) ↔ ChainTo g.Feeds k id := by
  constructor
  · generalize hi : g.cellIndex id = i
    intro h
    induction h generalizing id with
    | start => exact .start id
    | snoc _ hr ih =>
      obtain ⟨c, hc, hsource, hsink⟩ := joined_wiring.mp hr
      obtain ⟨_, m, hm⟩ := hg.ends_live (mem_connections_of_dependency hc)
      obtain rfl := cellIndex_inj hg hm (hsink.trans hi.symm)
      exact .snoc (ih hsource) ⟨c, hc, rfl, rfl⟩
  · refine fun h => h.map g.cellIndex ?_
    rintro a b ⟨c, hc, rfl, rfl⟩
    exact joined_wiring.mpr ⟨c, hc, rfl, rfl⟩

theorem Integral.index_lt (hg : g.Integral) {a b : NodeId} {m n : Node β}
    (hm : g.node? a = some m) (hn : g.node? b = some n) (h : g.cellIndex a < g.cellIndex b) :
    a.index < b.index := by
  obtain ⟨ha, hma⟩ := List.getElem?_eq_some_iff.mp (hg.nodes_cellIndex hm)
  obtain ⟨hb, hnb⟩ := List.getElem?_eq_some_iff.mp (hg.nodes_cellIndex hn)
  have hlt := List.pairwise_iff_getElem.mp hg.nodes_sorted _ _ ha hb h
  rwa [hma, hnb, hg.id_eq a m hm, hg.id_eq b n hn] at hlt

theorem Integral.earlier (hg : g.Integral) {a b : NodeId} {m n : Node β}
    (hm : g.node? a = some m) (hn : g.node? b = some n)
    (h : Waves.Earlier g.wiring.dependencies (g.cellIndex a) (g.cellIndex b)) : g.Earlier a b := by
  obtain ⟨j, k, hj, hk, horder⟩ := h
  simp only [hg.chainTo_iff] at hj hk
  exact ⟨j, k, hj, hk, horder.imp_right fun ⟨heq, hlt⟩ => ⟨heq, hg.index_lt hm hn hlt⟩⟩

/-! ### Conflicts -/

theorem Integral.exists_producer_iff (hg : g.Integral) {id : NodeId} {n : Node β}
    (hn : g.node? id = some n) {P : Nat → Prop} :
    (∃ p ∈ g.wiring.producers (g.cellIndex id), P p) ↔
      ∃ p, g.FeedsData p id ∧ P (g.cellIndex p) := by
  constructor
  · rintro ⟨_, hp, h⟩
    obtain ⟨c, hc, hcarries, rfl, hsink⟩ := mem_producers_wiring.mp hp
    exact ⟨c.source, ⟨c, hc, hcarries, rfl, (cellIndex_inj hg hn hsink.symm).symm⟩, h⟩
  · rintro ⟨p, ⟨c, hc, hcarries, rfl, rfl⟩, h⟩
    exact ⟨_, mem_producers_wiring.mpr ⟨c, hc, hcarries, rfl, rfl⟩, h⟩

theorem two_le_length {α : Type} {l : List α} {a b : α} (ha : a ∈ l) (hb : b ∈ l) (hne : a ≠ b) :
    2 ≤ l.length := by
  match l with
  | [] => cases ha
  | [c] => exact absurd ((List.mem_singleton.mp ha).trans (List.mem_singleton.mp hb).symm) hne
  | _ :: _ :: _ => simp

/-- A node that resolves is not ambiguous. -/
theorem IsAmbiguous.not_resolves (hg : g.Integral) {fallback d : Device} {n : Node β}
    (h : g.IsAmbiguous fallback n) (hn : n ∈ g.nodes) : ¬g.Resolves fallback n.id d := by
  obtain ⟨hnone, p, q, d, e, hp, hq, hpd, hqe, hne⟩ := h
  intro hresolves
  exact hne ((hpd.unique (hresolves.producer hg hn hnone hp)).trans
    (hqe.unique (hresolves.producer hg hn hnone hq)).symm)

/-- The conflict that is reported is the first. -/
theorem Integral.firstConflict (hg : g.Integral) {name : String} {devices : List Device}
    (h : g.planFor config = .error (.deviceConflict name devices)) :
    ∃ n ∈ g.nodes, n.name = name ∧ g.FirstConflict config.defaultDevice n devices := by
  obtain ⟨first, c, sorted, inferred, rfl, rfl⟩ :=
    Netlist.schedule_conflict (hg.planFor_eq_error.mp h)
  have hwithin := hg.wiring_sound.dependencies_within
  have hperm := Waves.flatten_perm hwithin sorted
  have hproducers (before : List Nat) (i : Nat) (after : List Nat)
      (hsplit : first.flatten = before ++ i :: after) (p : Nat) (hp : p ∈ g.wiring.producers i) :
      p ∈ before :=
    Netlist.producers_before hg.wiring_sound sorted hsplit hp
  have hconflict := Devices.infer_spec g.wiring config.defaultDevice _ hperm hproducers
  rw [inferred] at hconflict
  obtain ⟨⟨before, after, hsplit, hbefore, hfed⟩, hsorted⟩ :=
    Devices.infer_error _ hperm hproducers inferred
  obtain ⟨n, type, hn, htype, hcell, hindex⟩ :=
    hg.node?_of_cell (List.getElem?_eq_getElem hconflict.lt)
  have hid := hg.id_eq _ n hn
  rw [← hid] at hn hindex
  have hpinned : n.device = none := by
    have hpin := hg.pinned?_cellIndex n.id
    rwa [hindex, hconflict.unpinned, hn, Option.bind_some, eq_comm] at hpin
  have hmem (d : Device) :
      d ∈ c.devices ↔ ∃ p, g.FeedsData p n.id ∧ g.Resolves config.defaultDevice p d := by
    rw [hconflict.mem_devices, ← hindex, hg.exists_producer_iff hn]
    exact exists_congr fun p => and_congr_right fun _ => hg.resolves_iff
  obtain ⟨d, hd, e, he, hne⟩ := hconflict.several
  refine ⟨n, mem_nodes_of_node? hn, ?_, ⟨hpinned, ?_⟩, fun m hm hambiguous => ?_, fun p hp => ?_,
    hmem, hsorted, two_le_length hd he hne⟩
  · rw [List.getElem?_eq_getElem hconflict.lt, hcell]
    rfl
  · obtain ⟨p, hp, hpd⟩ := (hmem d).mp hd
    obtain ⟨q, hq, hqe⟩ := (hmem e).mp he
    exact ⟨p, q, d, e, hp, hq, hpd, hqe, hne⟩
  · have hlive := hg.node?_id hm
    obtain ⟨own, hown⟩ := hg.type?_isSome hm
    have hlt : g.cellIndex m.id < g.wiring.cells.length :=
      Netlist.lt_of_getElem? (hg.cells_cellIndex hlive hown)
    rcases Waves.mem_or_earlier hwithin sorted hsplit hlt with hdone | heq | hlater
    · obtain ⟨d, hd⟩ := hbefore _ hdone
      exact absurd (hg.resolves_iff.mp hd) (hambiguous.not_resolves hg hm)
    · have hsame := cellIndex_inj hg hlive (heq.trans hindex.symm)
      rw [hsame, hn] at hlive
      exact .inl (Option.some.inj hlive).symm
    · exact .inr (hg.earlier hn hlive (hindex ▸ hlater))
  · obtain ⟨fed, hfeed⟩ : ∃ q ∈ g.wiring.producers (g.cellIndex n.id), q = g.cellIndex p :=
      (hg.exists_producer_iff hn).mpr ⟨p, hp, rfl⟩
    obtain ⟨d, hd⟩ := hbefore _ (hfed _ (hindex ▸ hfeed.2 ▸ hfeed.1))
    exact ⟨d, hg.resolves_iff.mp hd⟩

/-! ### Reachable graphs -/

/-- A plan of a reachable graph places exactly the live nodes, by the only assignment that gives
each the device that it is pinned to, else that of its data producers, else the default, whatever
else is connected. Where a compilation fails over devices, the first ambiguous node is reported
with the devices that its producers resolved to. -/
theorem Reachable.devices_inferred [Behavior β] (hg : Reachable g) (config : CompileConfig) :
    (∀ p, g.planFor config = .ok p →
      (∀ id, (p.deviceOf? id).isSome = (g.node? id).isSome) ∧
      (∃ device, g.Infers config.defaultDevice device ∧
        (∀ n ∈ g.nodes, p.deviceOf? n.id = some (device n.id)) ∧
        ∀ other, g.Infers config.defaultDevice other → ∀ n ∈ g.nodes, other n.id = device n.id) ∧
      ∀ (h : Graph β) (settings : CompileConfig) (q : Plan), Reachable h →
        h.planFor settings = .ok q → settings.defaultDevice = config.defaultDevice →
        (∀ id, (h.node? id).map Node.device = (g.node? id).map Node.device) →
        (∀ a b, h.FeedsData a b ↔ g.FeedsData a b) → ∀ id, q.deviceOf? id = p.deviceOf? id) ∧
    ∀ name devices, g.planFor config = .error (.deviceConflict name devices) →
      ∃ n ∈ g.nodes, n.name = name ∧ g.FirstConflict config.defaultDevice n devices := by
  have hi := hg.integral
  exact ⟨fun p hp => ⟨hi.deviceOf?_isSome hp, hi.infers_unique hp,
    fun h settings q hh hq hdefault hpins hfeeds =>
      hi.deviceOf?_congr hh.integral hp hq hdefault hpins hfeeds⟩,
    fun name devices h => hi.firstConflict h⟩

def blendType : NodeType Script where
  name := "Blend"
  inputs := [{ name := "left", type := .resource, isOptional := true },
    { name := "right", type := .resource, isOptional := true }]
  outputs := [{ name := "out", type := .resource }]

def blendNodes : Graph Script :=
  let typed := (Command.run ({} : Graph Script) (.registerType blendType)).graph
  ["left", "right", "blend"].foldl
    (fun g name => (Command.run g (.create ⟨3⟩ name)).graph) typed

/-- Two of the passes on devices of their own, the first of which feeds the third. -/
def blend : Graph Script :=
  List.foldl (fun g c => (Command.run g c).graph) blendNodes
    [.setDevice ⟨0⟩ (some ⟨2⟩), .setDevice ⟨1⟩ (some ⟨1⟩),
      .connect ⟨⟨0⟩, .data 0, ⟨2⟩, .data 0⟩]

/-- The third pass blends the first two. -/
def torn : Graph Script := (Command.run blend (.connect ⟨⟨1⟩, .data 0, ⟨2⟩, .data 1⟩)).graph

theorem blend_reachable : Reachable blend := by
  have hnodes : Reachable blendNodes := ((((Reachable.new _ _).run _).run _).run _).run _
  exact hnodes.edits _

theorem torn_reachable : Reachable torn := blend_reachable.run _

theorem torn_conflict : torn.planFor {} = .error (.deviceConflict "blend" [⟨1⟩, ⟨2⟩]) := by
  have hsorted : Waves.sort torn.wiring.cells.length torn.wiring.dependencies =
      .ok [[0, 1], [2]] := by decide +kernel
  have hleft : (torn.wiring.cells[0]?.bind Cell.pinned).isSome = true := by decide +kernel
  have hright : (torn.wiring.cells[1]?.bind Cell.pinned).isSome = true := by decide +kernel
  have hblend : (torn.wiring.cells[2]?.bind Cell.pinned).isSome = false := by decide +kernel
  have hproducers : ((torn.wiring.producers 2).filterMap fun p =>
      (torn.wiring.cells[p]?.map Cell.pinned).join) = [⟨2⟩, ⟨1⟩] := by decide +kernel
  -- the kernel does not run a merge sort of two elements
  have hdistinct : Devices.distinct [⟨2⟩, ⟨1⟩] = [⟨1⟩, ⟨2⟩] := by
    simp [Devices.distinct, List.mergeSort]
    rfl
  refine torn_reachable.integral.planFor_eq_error.mpr
    (Netlist.Scheduled.schedule_eq (.conflict (c := ⟨2, [⟨1⟩, ⟨2⟩]⟩) ?_ hsorted ?_))
  · decide +kernel
  · simp [Devices.infer, Devices.visit, hleft, hright, hblend, hproducers, hdistinct, bind,
      Except.bind]

/-- The third pass is on the device of the first, until the second feeds it too. -/
theorem blend_devices :
    (∃ plan device, blend.planFor {} = .ok plan ∧ blend.Infers .primary device ∧
      plan.deviceOf? ⟨2⟩ = some ⟨2⟩) ∧
    torn.planFor {} = .error (.deviceConflict "blend" [⟨1⟩, ⟨2⟩]) ∧
    ∃ n ∈ torn.nodes, n.name = "blend" ∧ torn.FirstConflict .primary n [⟨1⟩, ⟨2⟩] := by
  have hplan : (blend.planFor {}).map (fun plan => plan.deviceOf? ⟨2⟩) = .ok (some ⟨2⟩) := by
    decide +kernel
  obtain ⟨plan, h, hthird⟩ := exists_of_map_eq_ok hplan
  obtain ⟨_, ⟨device, hdevice, _⟩, _⟩ := (blend_reachable.devices_inferred {}).1 plan h
  exact ⟨⟨plan, device, h, hdevice, hthird⟩, torn_conflict,
    (torn_reachable.devices_inferred {}).2 _ _ torn_conflict⟩

end Graph

end FrameGraph
