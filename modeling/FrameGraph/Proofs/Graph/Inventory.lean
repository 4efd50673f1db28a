import FrameGraph.Proofs.Graph.Routing
import FrameGraph.Proofs.Plan.Lifetimes
import FrameGraph.Proofs.Plan.Occupancy

/-! The inventory of a plan. A live node asks for storage with each resource among its outputs,
and a transfer with the resource that it copies. The storage of the plan lists what is asked
for in the order of the plan, binds it by its lifetime, its size and the settings, and has
slots that describe what is bound to them. -/

namespace FrameGraph

namespace Graph

variable {β : Type} {g : Graph β} {s : Schedule} {config : CompileConfig}

/-- A step of a plan asks for storage for one of its outputs, of this lifetime and size on this
device. -/
inductive Asks (g : Graph β) (p : Plan) : Step → Nat → Lifetime → Device → Nat → Prop
  | node {id : NodeId} {output : Nat} {port : OutputPort} {device : Device}
      (hasPort : g.outputPort? id output = some port) (resource : port.type = .resource)
      (placed : p.deviceOf? id = some device) :
      Asks g p (.node id) output port.lifetime device port.size
  /-- A copy of a transient is transient, and one of anything else a product. -/
  | transfer {t : Nat} {transfer : Transfer} {port : OutputPort}
      (copied : p.transfers[t]? = some transfer)
      (hasPort : g.outputPort? transfer.source transfer.output = some port)
      (resource : port.type = .resource) :
      Asks g p (.transfer t) 0 (if port.lifetime = .transient then .transient else .product)
        transfer.target port.size

/-- What is listed in the storage of a plan, and how it is bound. -/
structure IsInventory (g : Graph β) (config : CompileConfig) (p : Plan) : Prop where
  listed : ∀ step output lifetime device size, g.Asks p step output lifetime device size ↔
    ∃ a ∈ p.storage.allocations, a.producer = step ∧ a.output = output ∧
      a.lifetime = lifetime ∧ a.device = device ∧ a.size = size
  once : (p.storage.allocations.map fun a => (a.producer, a.output)).Nodup
  placed : ∀ a ∈ p.storage.allocations, p.order[a.firstUse]? = some a.producer
  sorted : p.storage.allocations.Pairwise fun a b =>
    a.firstUse < b.firstUse ∨ a.firstUse = b.firstUse ∧ a.output < b.output
  external : ∀ a ∈ p.storage.allocations, a.lifetime = .external → a.binding = .external
  dedicated : ∀ a ∈ p.storage.allocations, a.lifetime = .product ∨ a.lifetime = .persistent ∨
      a.lifetime = .transient ∧ (config.aliasing = false ∨ a.size < config.minAliasSize) →
    ∃ i slot, a.binding = .dedicated i ∧ p.storage.slots[i]? = some slot ∧ slot.residents = 1
  aliased : ∀ a ∈ p.storage.allocations, a.lifetime = .transient → config.aliasing = true →
    config.minAliasSize ≤ a.size →
    ∃ i slot, a.binding = .aliased i ∧ p.storage.slots[i]? = some slot
  numbered : ∀ (i : Nat) (slot : Slot), p.storage.slots[i]? = some slot → slot.number = i
  described : ∀ (i : Nat) (slot : Slot), p.storage.slots[i]? = some slot →
    slot.Describes (p.storage.residentsOf i)

theorem Integral.asks_iff (hg : g.Integral) (hnet : s.layout.net = g.wiring) (hv : s.Valid)
    {step : Step} {output : Nat} {lifetime : Lifetime} {device : Device} {size : Nat} :
    g.Asks (s.plan config) step output lifetime device size ↔
      ∃ i < s.layout.stepCount, s.stepOf i = step ∧
        (output, lifetime, device, size) ∈ s.resources i := by
  constructor
  · intro h
    cases h with
    | node hport hresource hplaced =>
      obtain ⟨i, hi, rfl⟩ := Schedule.exists_cell_of_deviceOf? hplaced
      obtain rfl := Option.some.inj ((hv.deviceOf?_nodeOf hi).symm.trans hplaced)
      rw [hg.outputPort?_nodeOf hnet hi] at hport
      exact ⟨i, Nat.lt_of_lt_of_le hi (Nat.le_add_right _ _), Schedule.stepOf_cell hi,
        (Schedule.mem_resources_cell hi).mpr ⟨_, _, hport, hresource, rfl⟩⟩
    | @transfer t _ port hcopied hport hresource =>
      obtain ⟨e, he, c, _, hcross, hc, hcopies⟩ := hv.transfer_copies hcopied
      obtain ⟨_, rfl⟩ := Layout.crossing?_eq_some.mp hcross
      rw [hcopies.source, hcopies.output, hg.outputPort?_nodeOf hnet (hv.sound.data_lt he).1]
        at hport
      refine ⟨s.layout.size + t, Nat.add_lt_add_left (List.getElem?_eq_some_iff.mp hc).1 _,
        Schedule.stepOf_transfer t, Schedule.mem_resources_transfer.mpr
        ⟨_, port, hc, hport, hresource, by rw [hcopies.target]⟩⟩
  · rintro ⟨i, hi, rfl, hmem⟩
    rcases Schedule.cell_or_transfer hi with hcell | ⟨t, ht, rfl⟩
    · obtain ⟨_, port, hport, hresource, heq⟩ := (Schedule.mem_resources_cell hcell).mp hmem
      cases heq
      rw [Schedule.stepOf_cell hcell]
      exact .node ((hg.outputPort?_nodeOf hnet hcell _).trans hport) hresource
        (hv.deviceOf?_nodeOf hcell)
    · obtain ⟨c, port, hc, hport, hresource, heq⟩ := Schedule.mem_resources_transfer.mp hmem
      cases heq
      obtain ⟨transfer, htransfer⟩ : ∃ transfer, (s.plan config).transfers[t]? = some transfer :=
        ⟨_, (List.getElem?_map).trans (congrArg (Option.map _) hc)⟩
      obtain ⟨e, he, _, _, hcross, hx, hcopies⟩ := hv.transfer_copies htransfer
      obtain rfl := Option.some.inj (hc.symm.trans hx)
      obtain ⟨_, rfl⟩ := Layout.crossing?_eq_some.mp hcross
      rw [← hg.outputPort?_nodeOf hnet (hv.sound.data_lt he).1, ← hcopies.source,
        ← hcopies.output] at hport
      rw [Schedule.stepOf_transfer, ← hcopies.target]
      exact .transfer htransfer hport hresource

/-- No output is listed twice, since a step has one position. -/
theorem once_of_sorted {order : List Step} {allocations : List Allocation} (hnodup : order.Nodup)
    (hplaced : ∀ a ∈ allocations, order[a.firstUse]? = some a.producer)
    (hsorted : allocations.Pairwise fun a b =>
      a.firstUse < b.firstUse ∨ a.firstUse = b.firstUse ∧ a.output < b.output) :
    (allocations.map fun a => (a.producer, a.output)).Nodup := by
  refine List.pairwise_map.mpr (hsorted.imp_of_mem fun {a b} ha hb hab heq => ?_)
  obtain ⟨hproducer, houtput⟩ := Prod.mk.inj heq
  have hlt := (List.getElem?_eq_some_iff.mp (hplaced a ha)).1
  have hsame : a.firstUse = b.firstUse := (List.getElem?_inj hlt hnodup).mp
    ((hplaced a ha).trans (by rw [hproducer, hplaced b hb]))
  omega

theorem Integral.listed (hg : g.Integral) (hnet : s.layout.net = g.wiring) (hv : s.Valid)
    (step : Step) (output : Nat) (lifetime : Lifetime) (device : Device) (size : Nat) :
    g.Asks (s.plan config) step output lifetime device size ↔
      ∃ a ∈ (s.plan config).storage.allocations, a.producer = step ∧ a.output = output ∧
        a.lifetime = lifetime ∧ a.device = device ∧ a.size = size := by
  rw [hg.asks_iff hnet hv]
  constructor
  · rintro ⟨i, hi, rfl, hmem⟩
    obtain ⟨position, hposition⟩ := hv.exists_position hi
    obtain ⟨a, ha, hrequest⟩ := Schedule.exists_allocation config
      (Schedule.mem_requests.mpr ⟨position, i, hposition, _, hmem, rfl⟩)
    exact ⟨a, ha, by rw [hrequest]; exact ⟨rfl, rfl, rfl, rfl, rfl⟩⟩
  · rintro ⟨a, ha, rfl, rfl, rfl, rfl, rfl⟩
    obtain ⟨position, i, hposition, _, hmem, hrequest⟩ :=
      Schedule.mem_requests.mp (Schedule.mem_requests_of_allocation ha)
    rw [← hrequest]
    exact ⟨i, hv.lt_of_order hposition, rfl, hmem⟩

/-- The storage of the plan of a reachable graph lists each resource of a live node and each copied
one exactly once, in the order of the plan, on the device of its step. Its lifetime, its size and
the settings decide how it is bound, and the slots describe what is bound to them. -/
theorem Reachable.planFor_isInventory [Behavior β] (hg : Reachable g) {p : Plan}
    (h : g.planFor config = .ok p) : g.IsInventory config p := by
  obtain ⟨s, rfl, hnet, hv⟩ := hg.integral.exists_schedule h
  have hsuited := Storage.allocate_suited config s.requests
  have htallied := Storage.allocate_tallied config s.requests
  have hdescribed := Storage.allocate_described config s.requests
  have hplaced := (hv.placed config).first
  have hsorted : (s.plan config).storage.allocations.Pairwise fun a b =>
      a.firstUse < b.firstUse ∨ a.firstUse = b.firstUse ∧ a.output < b.output := by
    have hrequests := s.requests_sorted
    rw [← Storage.allocate_toRequest config s.requests, List.pairwise_map] at hrequests
    exact hrequests
  constructor
  case listed => exact hg.integral.listed hnet hv
  case once => exact once_of_sorted hv.plan_order_nodup hplaced hsorted
  case placed => exact hplaced
  case sorted => exact hsorted
  case external => exact fun a ha => (hsuited a ha).external
  case dedicated =>
    intro a ha hkind
    obtain ⟨i, hi⟩ : ∃ i, a.binding = .dedicated i := by
      refine (hsuited a ha).dedicated ?_ (Bool.eq_false_iff.mpr fun hpooled => ?_)
      · rcases hkind with h | h | ⟨h, _⟩ <;> simp [h]
      · obtain ⟨htransient, haliasing, hsize⟩ := Storage.isPooled_iff.mp hpooled
        rcases hkind with h | h | ⟨_, h | h⟩
        · simp [h] at htransient
        · simp [h] at htransient
        · simp [h] at haliasing
        · omega
    obtain ⟨slot, hslot, hone⟩ := htallied.residents_dedicated ha hi
    exact ⟨i, slot, hi, hslot, hone⟩
  case aliased =>
    intro a ha htransient haliasing hsize
    obtain ⟨i, hi⟩ := (hsuited a ha).aliased
      (Storage.isPooled_iff.mpr ⟨htransient, haliasing, hsize⟩)
    obtain ⟨slot, hslot⟩ := htallied.exists_slot ha (i := i) (by rw [hi]; rfl)
    exact ⟨i, slot, hi, hslot⟩
  case numbered => exact hdescribed.numbered
  case described => exact hdescribed.slots

def stageType : NodeType Script where
  name := "Stage"
  inputs := [{ name := "in", type := .resource, isOptional := true }]
  outputs := [{ name := "history", type := .resource, lifetime := .persistent, size := 256 },
    { name := "ready", type := .bool },
    { name := "target", type := .resource, lifetime := .external, size := 64 },
    { name := "frame", type := .resource, size := 128 },
    { name := "scratch", type := .resource, lifetime := .transient, size := 32 },
    { name := "tile", type := .resource, lifetime := .transient, size := 512 }]

def stageNodes : Graph Script :=
  let typed := (Command.run ({} : Graph Script) (.registerType stageType)).graph
  let first := (Command.run typed (.create ⟨3⟩ "shade")).graph
  (Command.run first (.create ⟨3⟩ "grade")).graph

/-- The second stage reads the history of the first from another device. -/
def stages : Graph Script :=
  List.foldl (fun g c => (Command.run g c).graph) stageNodes
    [.setDevice ⟨1⟩ (some ⟨1⟩), .connect ⟨⟨0⟩, .data 0, ⟨1⟩, .data 0⟩]

theorem stages_reachable : Reachable stages := by
  have hnodes : Reachable stageNodes := (((Reachable.new _ _).run _).run _).run _
  exact hnodes.edits _

def stageBindings : List (Step × Nat × Binding) :=
  [(.node ⟨0⟩, 0, .dedicated 0), (.node ⟨0⟩, 2, .external), (.node ⟨0⟩, 3, .dedicated 1),
    (.node ⟨0⟩, 4, .dedicated 2), (.node ⟨0⟩, 5, .aliased 3), (.transfer 0, 0, .dedicated 4),
    (.node ⟨1⟩, 0, .dedicated 5), (.node ⟨1⟩, 2, .external), (.node ⟨1⟩, 3, .dedicated 6),
    (.node ⟨1⟩, 4, .dedicated 7), (.node ⟨1⟩, 5, .aliased 8)]

/-- Between the resources of the stages the transfer of the history is listed, as a product. The
small transients have slots of their own. -/
theorem stages_inventory : ∃ plan, stages.planFor { minAliasSize := 64 } = .ok plan ∧
    stages.IsInventory { minAliasSize := 64 } plan ∧
    plan.storage.allocations.map (fun a => (a.producer, a.output, a.binding)) = stageBindings := by
  have hplan : (stages.planFor { minAliasSize := 64 }).map (fun plan =>
      plan.storage.allocations.map fun a => (a.producer, a.output, a.binding)) =
      .ok stageBindings := by decide +kernel
  obtain ⟨plan, h, hlisted⟩ := exists_of_map_eq_ok hplan
  exact ⟨plan, h, stages_reachable.planFor_isInventory h, hlisted⟩

end Graph

end FrameGraph
