import Mathlib.Data.Finset.Lattice.Fold
import Mathlib.Order.Lattice.Nat
import FrameGraph.Proofs.Plan.Lifetimes
import FrameGraph.Proofs.Plan.Residents

/-! How few slots a pool can do with. Requests come in the order of their first use, so when
none of the shared slots of a device accepts one, the latest residents of all of them are
live together with it. Hence each device has a position, its peak, at which every shared
slot of the device has a live resident, and no assignment that keeps residents apart has
fewer slots than there are resources live at the peak. -/

namespace FrameGraph

def Request.liveAt (r : Request) (k : Nat) : Bool := r.firstUse ≤ k && k ≤ r.lastUse

namespace Request

variable {a b : Request} {k : Nat}

theorem liveAt_iff : a.liveAt k = true ↔ a.firstUse ≤ k ∧ k ≤ a.lastUse := by simp [liveAt]

theorem overlaps_iff : a.overlaps b = true ↔ a.firstUse ≤ b.lastUse ∧ b.firstUse ≤ a.lastUse := by
  simp [overlaps]

theorem overlaps_of_liveAt (ha : a.liveAt k = true) (hb : b.liveAt k = true) :
    a.overlaps b = true := by
  rw [liveAt_iff] at ha hb
  rw [overlaps_iff]
  omega

end Request

namespace Storage

/-- Each device has a position at which all its shared slots have a live resident. -/
structure Crowded (s : Storage) : Prop where
  /-- The latest resident of a shared slot. -/
  latest : ∀ (i : Nat) (slot : Slot) (last : Nat), s.slots[i]? = some slot →
    slot.busyUntil = some last → ∃ a ∈ s.allocations, a.binding = .aliased i ∧ a.lastUse = last
  peak : ∀ d, ∃ k, ∀ (i : Nat) (slot : Slot), s.slots[i]? = some slot → slot.device = d →
    slot.busyUntil.isSome = true →
    ∃ a ∈ s.allocations, a.binding = .aliased i ∧ a.liveAt k = true

variable {s : Storage} {config : CompileConfig} {r : Request} {requests : List Request}

theorem Crowded.empty : Crowded {} := by
  constructor <;> simp

/-- Slots with a new end have a new latest resident. -/
theorem Crowded.latest_bind (hs : s.Crowded) {binding : Binding} {slots : List Slot}
    (ends : ∀ (i : Nat) (slot : Slot) (last : Nat), slots[i]? = some slot →
      slot.busyUntil = some last →
      s.slots[i]? = some slot ∨ (binding = .aliased i ∧ r.lastUse = last))
    (i : Nat) (slot : Slot) (last : Nat) (hslot : slots[i]? = some slot)
    (hlast : slot.busyUntil = some last) :
    ∃ a ∈ (s.bind r binding slots).allocations, a.binding = .aliased i ∧ a.lastUse = last := by
  rcases ends i slot last hslot hlast with hold | ⟨hbinding, hend⟩
  · obtain ⟨a, ha, hrest⟩ := hs.latest i slot last hold hlast
    exact ⟨a, List.mem_append_left _ ha, hrest⟩
  · exact ⟨_, List.mem_append_right _ (List.mem_singleton_self _), hbinding, hend⟩

/-- A peak stays one when no shared slot is new. -/
theorem Crowded.bind (hs : s.Crowded) {binding : Binding} {slots : List Slot}
    (ends : ∀ (i : Nat) (slot : Slot) (last : Nat), slots[i]? = some slot →
      slot.busyUntil = some last →
      s.slots[i]? = some slot ∨ (binding = .aliased i ∧ r.lastUse = last))
    (kept : ∀ (i : Nat) (slot : Slot), slots[i]? = some slot → slot.busyUntil.isSome = true →
      ∃ old, s.slots[i]? = some old ∧ old.device = slot.device ∧ old.busyUntil.isSome = true) :
    (s.bind r binding slots).Crowded := by
  refine ⟨hs.latest_bind ends, fun d => ?_⟩
  obtain ⟨k, hk⟩ := hs.peak d
  refine ⟨k, fun i slot hslot hdevice hshared => ?_⟩
  obtain ⟨old, hold, hsame, hbusy⟩ := kept i slot hslot hshared
  obtain ⟨a, ha, hrest⟩ := hk i old hold (hsame.trans hdevice) hbusy
  exact ⟨a, List.mem_append_left _ ha, hrest⟩

/-- A resource that no shared slot accepts is live together with residents of all of them. -/
theorem Crowded.liveAt_of_full (hs : s.Crowded)
    (hlater : ∀ a ∈ s.allocations, a.firstUse ≤ r.firstUse)
    (full : ∀ slot ∈ s.slots, slot.accepts r = false) {i : Nat} {slot : Slot}
    (hslot : s.slots[i]? = some slot) (hdevice : slot.device = r.device)
    (hshared : slot.busyUntil.isSome = true) :
    ∃ a ∈ s.allocations, a.binding = .aliased i ∧ a.liveAt r.firstUse = true := by
  obtain ⟨last, hlast⟩ := Option.isSome_iff_exists.mp hshared
  obtain ⟨a, ha, hbinding, hend⟩ := hs.latest i slot last hslot hlast
  refine ⟨a, ha, hbinding, Request.liveAt_iff.mpr ⟨hlater a ha, ?_⟩⟩
  by_contra hdead
  have haccepts : slot.accepts r = true := accepts_iff.mpr ⟨hdevice, last, hlast, by omega⟩
  exact absurd haccepts (by simp [full slot (List.mem_of_getElem? hslot)])

theorem Crowded.bind_opened (hs : s.Crowded) (hr : r.firstUse ≤ r.lastUse)
    (hlater : ∀ a ∈ s.allocations, a.firstUse ≤ r.firstUse)
    (full : ∀ slot ∈ s.slots, slot.accepts r = false) :
    (s.bind r (.aliased s.slots.length)
      (s.slots ++ [.ofRequest s.slots.length r (some r.lastUse)])).Crowded := by
  refine ⟨hs.latest_bind fun i slot last hslot hlast => ?_, fun d => ?_⟩
  · rcases getElem?_append_new hslot with hslot | ⟨rfl, rfl⟩
    · exact .inl hslot
    · exact .inr ⟨rfl, Option.some.inj hlast⟩
  · by_cases hd : r.device = d
    · -- the peak moves to where the new resident begins
      refine ⟨r.firstUse, fun i slot hslot hdevice hshared => ?_⟩
      rcases getElem?_append_new hslot with hslot | ⟨rfl, rfl⟩
      · obtain ⟨a, ha, hrest⟩ :=
          hs.liveAt_of_full hlater full hslot (hdevice.trans hd.symm) hshared
        exact ⟨a, List.mem_append_left _ ha, hrest⟩
      · exact ⟨_, List.mem_append_right _ (List.mem_singleton_self _), rfl,
          Request.liveAt_iff.mpr ⟨Nat.le_refl _, hr⟩⟩
    · obtain ⟨k, hk⟩ := hs.peak d
      refine ⟨k, fun i slot hslot hdevice hshared => ?_⟩
      rcases getElem?_append_new hslot with hslot | ⟨rfl, rfl⟩
      · obtain ⟨a, ha, hrest⟩ := hk i slot hslot hdevice hshared
        exact ⟨a, List.mem_append_left _ ha, hrest⟩
      · exact absurd hdevice hd

theorem Crowded.place (hs : s.Crowded) (hr : r.firstUse ≤ r.lastUse)
    (hlater : ∀ a ∈ s.allocations, a.firstUse ≤ r.firstUse) : (s.place config r).Crowded := by
  have hgranted := s.place_granted config r
  generalize s.place config r = t at hgranted
  cases hgranted with
  | external =>
    exact hs.bind (fun _ _ _ hslot _ => .inl hslot) fun i slot hslot hshared =>
      ⟨slot, hslot, rfl, hshared⟩
  | joined _ found =>
    obtain ⟨hlt, haccepts, _⟩ := List.findIdx?_eq_some_iff_getElem.mp found
    refine hs.bind (fun j slot last hslot hlast => ?_) fun j slot hslot hshared => ?_
    · rcases getElem?_modify_join hslot with ⟨_, hslot⟩ | ⟨rfl, _, _, rfl⟩
      · exact .inl hslot
      · exact .inr ⟨rfl, Option.some.inj hlast⟩
    · rcases getElem?_modify_join hslot with ⟨_, hslot⟩ | ⟨rfl, old, hold, rfl⟩
      · exact ⟨slot, hslot, rfl, hshared⟩
      · obtain rfl := Option.some.inj ((List.getElem?_eq_getElem hlt).symm.trans hold)
        obtain ⟨_, last, hlast, _⟩ := accepts_iff.mp haccepts
        exact ⟨_, hold, rfl, by rw [hlast]; rfl⟩
  | opened _ full => exact hs.bind_opened hr hlater full
  | owned =>
    refine hs.bind (fun i slot last hslot hlast => ?_) fun i slot hslot hshared => ?_
    · rcases getElem?_append_new hslot with hslot | ⟨_, rfl⟩
      · exact .inl hslot
      · cases hlast
    · rcases getElem?_append_new hslot with hslot | ⟨_, rfl⟩
      · exact ⟨slot, hslot, rfl, hshared⟩
      · cases hshared

/-- Requests that are live for a while, in the order of their first use. -/
structure InOrder (requests : List Request) : Prop where
  live : ∀ r ∈ requests, r.firstUse ≤ r.lastUse
  sorted : requests.Pairwise fun a b => a.firstUse ≤ b.firstUse

theorem allocate_crowded (config : CompileConfig) (h : InOrder requests) :
    (allocate config requests).Crowded := by
  have hfold (s : Storage) (hs : s.Crowded)
      (hlater : ∀ a ∈ s.allocations, ∀ r ∈ requests, a.firstUse ≤ r.firstUse) :
      (requests.foldl (Storage.place config) s).Crowded := by
    induction requests generalizing s with
    | nil => exact hs
    | cons r requests ih =>
      obtain ⟨hr, hlive⟩ := List.forall_mem_cons.mp h.live
      obtain ⟨hfirst, hsorted⟩ := List.pairwise_cons.mp h.sorted
      refine ih ⟨hlive, hsorted⟩ _ (hs.place hr fun a ha => hlater a ha r List.mem_cons_self)
        fun a ha b hb => ?_
      have hmem := List.mem_map_of_mem (f := Allocation.toRequest) ha
      rw [place_toRequest, List.mem_append, List.mem_singleton] at hmem
      rcases hmem with hmem | heq
      · obtain ⟨a', ha', heq⟩ := List.mem_map.mp hmem
        rw [← heq]
        exact hlater a' ha' b (List.mem_cons_of_mem _ hb)
      · rw [heq]
        exact hfirst b hb
  exact hfold {} .empty (by simp)

/-! ### The fewest slots -/

/-- The places of the aliased allocations on a device. -/
def pool (s : Storage) (d : Device) : Finset Nat :=
  (Finset.range s.allocations.length).filter fun x =>
    (s.allocations[x]?).any fun a => a.device == d && a.binding.isAliased

/-- The places of those that are live at a position. -/
def crowd (s : Storage) (d : Device) (k : Nat) : Finset Nat :=
  (s.pool d).filter fun x => (s.allocations[x]?).any fun a => a.liveAt k

def poolSlots (s : Storage) (d : Device) : Finset Nat :=
  (Finset.range s.slots.length).filter fun i =>
    s.allocations.any fun a => a.device == d && a.binding == .aliased i

/-- Slots for the aliased allocations on a device, by their places, under which no two of one slot
are live together. -/
def Separates (s : Storage) (d : Device) (slot : Nat → Nat) : Prop :=
  ∀ x ∈ s.pool d, ∀ y ∈ s.pool d, x ≠ y → ∀ a b, s.allocations[x]? = some a →
    s.allocations[y]? = some b → a.overlaps b.toRequest = true → slot x ≠ slot y

def slotOf (s : Storage) (x : Nat) : Nat :=
  ((s.allocations[x]?).bind fun a => a.binding.slot?).getD 0

variable {d : Device} {x k i : Nat}

theorem mem_pool : x ∈ s.pool d ↔
    ∃ a, s.allocations[x]? = some a ∧ a.device = d ∧ ∃ i, a.binding = .aliased i := by
  have haliased (b : Binding) : b.isAliased = true ↔ ∃ i, b = .aliased i := by
    cases b <;> simp [Binding.isAliased]
  rw [pool, Finset.mem_filter, Finset.mem_range, Option.any_eq_true]
  simp only [Bool.and_eq_true, beq_iff_eq, haliased]
  exact ⟨fun h => h.2, fun h => ⟨(List.getElem?_eq_some_iff.mp h.choose_spec.1).1, h⟩⟩

theorem mem_crowd : x ∈ s.crowd d k ↔
    x ∈ s.pool d ∧ ∃ a, s.allocations[x]? = some a ∧ a.liveAt k = true := by
  rw [crowd, Finset.mem_filter, Option.any_eq_true]

theorem Tallied.mem_poolSlots (hs : s.Tallied) : i ∈ s.poolSlots d ↔
    ∃ a ∈ s.allocations, a.device = d ∧ a.binding = .aliased i := by
  rw [poolSlots, Finset.mem_filter, Finset.mem_range, List.any_eq_true]
  simp only [Bool.and_eq_true, beq_iff_eq]
  refine ⟨fun h => h.2, fun h => ⟨?_, h⟩⟩
  obtain ⟨a, ha, _, hbinding⟩ := h
  exact hs.within i (mem_bound.mpr ⟨a, ha, by rw [hbinding]; rfl⟩)

theorem slotOf_eq {a : Allocation} (hx : s.allocations[x]? = some a)
    (ha : a.binding = .aliased i) : s.slotOf x = i := by
  rw [slotOf, hx, Option.bind_some, ha]
  rfl

/-- What is live at one position takes as many slots. -/
theorem Separates.card_crowd_le {slot : Nat → Nat} (h : s.Separates d slot) (k : Nat) :
    (s.crowd d k).card ≤ ((s.pool d).image slot).card := by
  have hinj : Set.InjOn slot (s.crowd d k) := by
    intro x hx y hy hsame
    obtain ⟨hxpool, a, ha, halive⟩ := mem_crowd.mp hx
    obtain ⟨hypool, b, hb, hblive⟩ := mem_crowd.mp hy
    by_contra hne
    exact h x hxpool y hypool hne a b ha hb (Request.overlaps_of_liveAt halive hblive) hsame
  rw [← Finset.card_image_of_injOn hinj]
  exact Finset.card_le_card (Finset.image_subset_image (Finset.filter_subset _ _))

/-- The slots of packed storage keep residents apart. -/
theorem Packed.separates (hs : s.Packed) (d : Device) : s.Separates d s.slotOf := by
  intro x hx y hy hne a b ha hb hoverlap hsame
  obtain ⟨a', ha', _, i, hai⟩ := mem_pool.mp hx
  obtain ⟨b', hb', _, j, hbj⟩ := mem_pool.mp hy
  obtain rfl := Option.some.inj (ha'.symm.trans ha)
  obtain rfl := Option.some.inj (hb'.symm.trans hb)
  obtain rfl : i = j := by rwa [slotOf_eq ha hai, slotOf_eq hb hbj] at hsame
  have hapart := (hs.disjoint ha hb hne (by rw [hai]; rfl) (by rw [hbj]; rfl)).1
  have htogether := Request.overlaps_iff.mp hoverlap
  omega

theorem Tallied.image_slotOf (hs : s.Tallied) (d : Device) :
    (s.pool d).image s.slotOf = s.poolSlots d := by
  ext i
  rw [Finset.mem_image, hs.mem_poolSlots]
  constructor
  · rintro ⟨x, hx, rfl⟩
    obtain ⟨a, ha, hdevice, j, hbinding⟩ := mem_pool.mp hx
    exact ⟨a, List.mem_of_getElem? ha, hdevice, by rw [slotOf_eq ha hbinding, hbinding]⟩
  · rintro ⟨a, ha, hdevice, hbinding⟩
    obtain ⟨x, hx⟩ := List.mem_iff_getElem?.mp ha
    exact ⟨x, mem_pool.mpr ⟨a, hx, hdevice, i, hbinding⟩, slotOf_eq hx hbinding⟩

/-- At the peak of a device all its shared slots are taken. -/
theorem Crowded.exists_peak (hs : s.Crowded) (hp : s.Packed) (ht : s.Tallied) (d : Device) :
    ∃ k, s.poolSlots d ⊆ (s.crowd d k).image s.slotOf := by
  obtain ⟨k, hk⟩ := hs.peak d
  refine ⟨k, fun i hi => ?_⟩
  obtain ⟨a, ha, rfl, hbinding⟩ := ht.mem_poolSlots.mp hi
  have hslot : a.binding.slot? = some i := by rw [hbinding]; rfl
  obtain ⟨slot, hget, hdevice, _⟩ := hp.housed a ha i hslot
  obtain ⟨b, hb, hbound, hlive⟩ := hk i slot hget hdevice (by
    rw [ht.shared a ha i slot hslot hget, hbinding]
    rfl)
  obtain ⟨slot', hget', hdevice', _⟩ := hp.housed b hb i (by rw [hbound]; rfl)
  obtain rfl := Option.some.inj (hget.symm.trans hget')
  obtain ⟨y, hy⟩ := List.mem_iff_getElem?.mp hb
  have hypool := mem_pool.mpr ⟨b, hy, hdevice'.symm.trans hdevice, i, hbound⟩
  exact Finset.mem_image.mpr ⟨y, mem_crowd.mpr ⟨hypool, b, hy, hlive⟩, slotOf_eq hy hbound⟩

/-- No assignment that keeps residents apart has fewer slots. -/
theorem allocate_isLeast (config : CompileConfig) (h : InOrder requests) (d : Device) :
    IsLeast {m | ∃ slot : Nat → Nat, (allocate config requests).Separates d slot ∧
      (((allocate config requests).pool d).image slot).card = m}
      ((allocate config requests).poolSlots d).card := by
  have hp := allocate_packed config requests h.live
  have ht := allocate_tallied config requests
  refine ⟨⟨_, hp.separates d, by rw [ht.image_slotOf]⟩, ?_⟩
  rintro _ ⟨slot, hseparates, rfl⟩
  obtain ⟨k, hk⟩ := (allocate_crowded config h).exists_peak hp ht d
  calc ((allocate config requests).poolSlots d).card
      ≤ (((allocate config requests).crowd d k).image _).card := Finset.card_le_card hk
    _ ≤ ((allocate config requests).crowd d k).card := Finset.card_image_le
    _ ≤ _ := hseparates.card_crowd_le k

/-- There are as many shared slots on a device as resources of its pool at the busiest of all
positions up to the last use. -/
theorem allocate_card_poolSlots (config : CompileConfig) (h : InOrder requests) (d : Device)
    {count : Nat} (hcount : ∀ r ∈ requests, r.lastUse < count) :
    ((allocate config requests).poolSlots d).card =
      (Finset.range count).sup fun k => ((allocate config requests).crowd d k).card := by
  have hp := allocate_packed config requests h.live
  have ht := allocate_tallied config requests
  apply Nat.le_antisymm
  · obtain ⟨k, hk⟩ := (allocate_crowded config h).exists_peak hp ht d
    have hle := (Finset.card_le_card hk).trans Finset.card_image_le
    rcases Finset.eq_empty_or_nonempty ((allocate config requests).crowd d k) with hempty | ⟨x, hx⟩
    · rw [hempty, Finset.card_empty] at hle
      exact hle.trans (Nat.zero_le _)
    · obtain ⟨_, a, ha, hlive⟩ := mem_crowd.mp hx
      have hmem : a.toRequest ∈ requests := by
        rw [← allocate_toRequest config requests]
        exact List.mem_map_of_mem (List.mem_of_getElem? ha)
      have hlt := Nat.lt_of_le_of_lt (Request.liveAt_iff.mp hlive).2 (hcount _ hmem)
      exact hle.trans (Finset.le_sup (f := fun k => ((allocate config requests).crowd d k).card)
        (Finset.mem_range.mpr hlt))
  · refine Finset.sup_le fun k _ => ?_
    rw [← ht.image_slotOf]
    exact (hp.separates d).card_crowd_le k

end Storage

namespace Schedule

variable {s : Schedule}

theorem requests_inOrder (s : Schedule) : Storage.InOrder s.requests := by
  constructor
  case live =>
    intro r hr
    obtain ⟨position, i, _, resource, _, rfl⟩ := mem_requests.mp hr
    exact (isGreatest_foldl_max _ position).2 (.inl rfl)
  case sorted => exact s.requests_sorted.imp fun h => h.elim Nat.le_of_lt fun h => Nat.le_of_eq h.1

theorem Valid.lastUse_lt (hv : s.Valid) (config : CompileConfig) {r : Request}
    (hr : r ∈ s.requests) : r.lastUse < (s.plan config).order.length := by
  have hspans := (hv.request_spans config hr).1
  by_cases hread : ∃ k, (s.plan config).ReadAt r k
  · obtain ⟨reader, source, hk, _⟩ := (hspans.last hread).1
    exact (List.getElem?_eq_some_iff.mp hk).1
  · rw [hspans.unread hread]
    exact (List.getElem?_eq_some_iff.mp hspans.first).1

end Schedule

end FrameGraph
