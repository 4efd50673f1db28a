import Mathlib.Order.Bounds.Basic
import FrameGraph.Proofs.Plan.Residents

/-! What slots say of their residents. A slot counts the resources that are bound to it, is as
large as the largest of them, is on their device and is persistent if they are. A new slot
says this of the one resource that it was made for; a resource that joins a slot is on its
device, and neither of the two is persistent, so that only the count and the size change. -/

namespace FrameGraph

/-- The slot says of its residents, of which there is one at least, what holds of them. -/
structure Slot.Describes (slot : Slot) (residents : List Allocation) : Prop where
  occupied : residents ≠ []
  count : slot.residents = residents.length
  size : IsGreatest {n | ∃ a ∈ residents, a.size = n} slot.size
  device : ∀ a ∈ residents, a.device = slot.device
  persistent : ∀ a ∈ residents, slot.isPersistent = true ↔ a.lifetime = .persistent

namespace Slot

variable {slot : Slot} {residents : List Allocation} {r : Request}

theorem describes_ofRequest (number : Nat) (r : Request) (busyUntil : Option Nat)
    (binding : Binding) : (ofRequest number r busyUntil).Describes [⟨r, binding⟩] := by
  constructor <;> simp [ofRequest, IsGreatest, upperBounds]

/-- A resource that is not persistent joins a slot of its device that is not persistent either. -/
theorem Describes.join (h : slot.Describes residents) (hdevice : slot.device = r.device)
    (hslot : slot.isPersistent = false) (hr : r.lifetime ≠ .persistent) (binding : Binding) :
    (slot.join r).Describes (residents ++ [⟨r, binding⟩]) where
  occupied := by simp
  count := by simp [Slot.join, h.count]
  size := by
    have hsizes : {n | ∃ a ∈ residents ++ [⟨r, binding⟩], a.size = n} =
        {n | ∃ a ∈ residents, a.size = n} ∪ {r.size} := by
      ext n
      simp [or_and_right, exists_or, eq_comm, or_comm]
    rw [hsizes]
    exact h.size.union isGreatest_singleton
  device := by
    refine List.forall_mem_append.mpr ⟨h.device, List.forall_mem_singleton.mpr ?_⟩
    exact hdevice.symm
  persistent := by
    refine List.forall_mem_append.mpr ⟨h.persistent, List.forall_mem_singleton.mpr ?_⟩
    simp [Slot.join, hslot, hr]

end Slot

namespace Storage

def residentsOf (s : Storage) (i : Nat) : List Allocation :=
  s.allocations.filter fun a => a.binding.slot? == some i

variable {s : Storage} {config : CompileConfig} {r : Request} {i : Nat} {binding : Binding}
  {slots : List Slot}

theorem residentsOf_bind_same (h : binding.slot? = some i) :
    (s.bind r binding slots).residentsOf i = s.residentsOf i ++ [⟨r, binding⟩] := by
  simp [residentsOf, bind, h]

theorem residentsOf_bind_other (h : binding.slot? ≠ some i) :
    (s.bind r binding slots).residentsOf i = s.residentsOf i := by
  simp [residentsOf, bind, h]

theorem Tallied.residentsOf_new (hs : s.Tallied) : s.residentsOf s.slots.length = [] := by
  refine List.filter_eq_nil_iff.mpr fun a ha hslot => ?_
  exact Nat.lt_irrefl _ (hs.within _ (mem_bound.mpr ⟨a, ha, beq_iff_eq.mp hslot⟩))

/-- Slots are numbered by their places and describe their residents. -/
structure Described (s : Storage) : Prop where
  numbered : ∀ (i : Nat) (slot : Slot), s.slots[i]? = some slot → slot.number = i
  slots : ∀ (i : Nat) (slot : Slot), s.slots[i]? = some slot → slot.Describes (s.residentsOf i)
  shared : ∀ slot ∈ s.slots, slot.busyUntil.isSome = true → slot.isPersistent = false

theorem Described.empty : Described {} := by
  constructor <;> simp

theorem Described.bind_external (hs : s.Described) (r : Request) :
    (s.bind r .external s.slots).Described where
  numbered := hs.numbered
  slots i slot hslot := by
    rw [residentsOf_bind_other (by simp [Binding.slot?])]
    exact hs.slots i slot hslot
  shared := hs.shared

theorem Described.bind_new (hs : s.Described) (ht : s.Tallied) {busyUntil : Option Nat}
    (hbinding : binding.slot? = some s.slots.length)
    (hbusy : busyUntil.isSome = true → r.lifetime ≠ .persistent) :
    (s.bind r binding (s.slots ++ [.ofRequest s.slots.length r busyUntil])).Described where
  numbered i slot hslot := by
    rcases getElem?_append_new hslot with hslot | ⟨rfl, rfl⟩
    · exact hs.numbered i slot hslot
    · rfl
  slots i slot hslot := by
    rcases getElem?_append_new hslot with hslot | ⟨rfl, rfl⟩
    · have hlt := (List.getElem?_eq_some_iff.mp hslot).1
      rw [residentsOf_bind_other (by simp [hbinding, Nat.ne_of_gt hlt])]
      exact hs.slots i slot hslot
    · rw [residentsOf_bind_same hbinding, ht.residentsOf_new, List.nil_append]
      exact Slot.describes_ofRequest _ r busyUntil binding
  shared := by
    refine List.forall_mem_append.mpr ⟨hs.shared, List.forall_mem_singleton.mpr fun hsome => ?_⟩
    simpa [Slot.ofRequest] using hbusy hsome

theorem Described.bind_join (hs : s.Described) (hr : r.lifetime ≠ .persistent)
    (found : (s.slots.findIdx? fun slot => slot.accepts r) = some i) :
    (s.bind r (.aliased i) (s.slots.modify i fun slot => slot.join r)).Described := by
  obtain ⟨hlt, haccepts, _⟩ := List.findIdx?_eq_some_iff_getElem.mp found
  obtain ⟨hdevice, last, hlast, _⟩ := accepts_iff.mp haccepts
  have hold := List.getElem?_eq_getElem hlt
  have hpersistent : s.slots[i].isPersistent = false :=
    hs.shared _ (List.getElem_mem hlt) (by rw [hlast]; rfl)
  constructor
  case numbered =>
    intro j slot hslot
    rcases getElem?_modify_join hslot with ⟨_, hslot⟩ | ⟨rfl, old, hget, rfl⟩
    · exact hs.numbered j slot hslot
    · exact hs.numbered j old hget
  case slots =>
    intro j slot hslot
    rcases getElem?_modify_join hslot with ⟨hne, hslot⟩ | ⟨rfl, old, hget, rfl⟩
    · rw [residentsOf_bind_other (by simp [Binding.slot?, Ne.symm hne])]
      exact hs.slots j slot hslot
    · obtain rfl := Option.some.inj (hold.symm.trans hget)
      rw [residentsOf_bind_same rfl]
      exact (hs.slots j _ hold).join hdevice hpersistent hr _
  case shared =>
    intro slot hmem hshared
    obtain ⟨j, hslot⟩ := List.mem_iff_getElem?.mp hmem
    rcases getElem?_modify_join hslot with ⟨_, hslot⟩ | ⟨rfl, old, hget, rfl⟩
    · exact hs.shared slot (List.mem_of_getElem? hslot) hshared
    · obtain rfl := Option.some.inj (hold.symm.trans hget)
      exact hpersistent

theorem Described.place (hs : s.Described) (ht : s.Tallied) (config : CompileConfig)
    (r : Request) : (s.place config r).Described := by
  have htransient (pooled : r.isPooled config = true) : r.lifetime ≠ .persistent := by
    rw [(isPooled_iff.mp pooled).1]
    decide
  have hgranted := s.place_granted config r
  generalize s.place config r = t at hgranted
  cases hgranted with
  | external => exact hs.bind_external r
  | joined pooled found => exact hs.bind_join (htransient pooled) found
  | opened pooled => exact hs.bind_new ht rfl fun _ => htransient pooled
  | owned => exact hs.bind_new ht rfl fun hnone => nomatch hnone

theorem allocate_described (config : CompileConfig) (requests : List Request) :
    (allocate config requests).Described := by
  have hboth : (allocate config requests).Tallied ∧ (allocate config requests).Described :=
    List.foldlRecOn (motive := fun s => s.Tallied ∧ s.Described) requests (Storage.place config)
      ⟨.empty, .empty⟩ fun _ hs r _ => ⟨hs.1.place config r, hs.2.place hs.1 config r⟩
  exact hboth.2

/-! ### How resources are bound -/

variable {a : Allocation}

theorem Suited.external (ha : Suited config a) (h : a.lifetime = .external) :
    a.binding = .external := by
  have hnone := ha.slot.mpr h
  cases hbinding : a.binding with
  | external => rfl
  | dedicated | aliased => simp [hbinding, Binding.slot?] at hnone

theorem Suited.aliased (ha : Suited config a) (h : a.isPooled config = true) :
    ∃ i, a.binding = .aliased i := by
  have hpool := ha.pool.trans h
  cases hbinding : a.binding with
  | aliased i => exact ⟨i, rfl⟩
  | external | dedicated => simp [hbinding, Binding.isAliased] at hpool

theorem Suited.dedicated (ha : Suited config a) (hasked : a.lifetime ≠ .external)
    (h : a.isPooled config = false) : ∃ i, a.binding = .dedicated i := by
  have hslot := ha.slot.not.mpr hasked
  have hpool := ha.pool.trans h
  cases hbinding : a.binding with
  | dedicated i => exact ⟨i, rfl⟩
  | external => simp [hbinding, Binding.slot?] at hslot
  | aliased => simp [hbinding, Binding.isAliased] at hpool

/-- A resource is bound to a slot that exists. -/
theorem Tallied.exists_slot (hs : s.Tallied) (ha : a ∈ s.allocations)
    (hi : a.binding.slot? = some i) : ∃ slot, s.slots[i]? = some slot :=
  ⟨_, List.getElem?_eq_getElem (hs.within i (mem_bound.mpr ⟨a, ha, hi⟩))⟩

/-- A resource with a slot of its own is its only resident. -/
theorem Tallied.residents_dedicated (hs : s.Tallied) (ha : a ∈ s.allocations)
    (hi : a.binding = .dedicated i) : ∃ slot, s.slots[i]? = some slot ∧ slot.residents = 1 := by
  have hslot : a.binding.slot? = some i := by rw [hi]; rfl
  obtain ⟨slot, hget⟩ := hs.exists_slot ha hslot
  have hbusy : slot.busyUntil.isSome = false := by
    rw [hs.shared a ha i slot hslot hget, hi]
    rfl
  exact ⟨slot, hget, hs.alone i slot hget (Option.not_isSome_iff_eq_none.mp (by simp [hbusy]))⟩

end Storage

end FrameGraph
