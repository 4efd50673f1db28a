import Mathlib.Data.Finset.Card
import FrameGraph.Proofs.Plan.Packing

/-! The residents of slots. `Granted` lists the ways in which a request is given storage.
A slot counts the resources that are bound to it, and it is shared exactly when all of
them are transients of the pool; so there are as many slots as distinct numbers among
the bindings, and each resource has its slot to itself exactly when no transient is
counted as sharing. -/

namespace FrameGraph

namespace Binding

def isAliased : Binding → Bool
  | aliased _ => true
  | _ => false

end Binding

namespace Storage

/-- How a request is given storage. -/
inductive Granted (config : CompileConfig) (s : Storage) (r : Request) : Storage → Prop
  | external (supplied : r.lifetime = .external) : Granted config s r (s.bind r .external s.slots)
  | joined {i : Nat} (pooled : r.isPooled config = true)
      (found : (s.slots.findIdx? fun slot => slot.accepts r) = some i) :
      Granted config s r (s.bind r (.aliased i) (s.slots.modify i fun slot => slot.join r))
  | opened (pooled : r.isPooled config = true)
      (full : ∀ slot ∈ s.slots, slot.accepts r = false) :
      Granted config s r
        (s.bind r (.aliased s.slots.length)
          (s.slots ++ [.ofRequest s.slots.length r (some r.lastUse)]))
  | owned (asked : r.lifetime ≠ .external) (alone : r.isPooled config = false) :
      Granted config s r
        (s.bind r (.dedicated s.slots.length) (s.slots ++ [.ofRequest s.slots.length r none]))

theorem place_granted (config : CompileConfig) (s : Storage) (r : Request) :
    Granted config s r (s.place config r) := by
  unfold place
  split
  · next supplied => exact .external supplied
  · next asked =>
    split
    · next pooled =>
      split
      · next i found => exact .joined pooled found
      · next hfull =>
        refine .opened pooled fun slot hslot => ?_
        simpa using List.findIdx?_eq_none_iff.mp hfull slot hslot
    · next alone => exact .owned asked (Bool.eq_false_of_not_eq_true alone)

theorem getElem?_append_new {slots : List Slot} {new slot : Slot} {i : Nat}
    (h : (slots ++ [new])[i]? = some slot) :
    slots[i]? = some slot ∨ (i = slots.length ∧ slot = new) := by
  rcases Nat.lt_or_ge i slots.length with hlt | hge
  · exact .inl (by rwa [List.getElem?_append_left hlt] at h)
  · rw [List.getElem?_append_right hge, List.getElem?_singleton] at h
    split at h
    · next hzero => exact .inr ⟨by omega, (Option.some.inj h).symm⟩
    · cases h

theorem getElem?_modify_join {slots : List Slot} {slot : Slot} {r : Request} {i j : Nat}
    (h : (slots.modify i fun slot => slot.join r)[j]? = some slot) :
    (j ≠ i ∧ slots[j]? = some slot) ∨
      (j = i ∧ ∃ old, slots[i]? = some old ∧ slot = old.join r) := by
  rw [List.getElem?_modify] at h
  by_cases hij : i = j
  · subst hij
    obtain ⟨old, hold, rfl⟩ := Option.map_eq_some_iff.mp h
    exact .inr ⟨rfl, old, hold, by simp⟩
  · exact .inl ⟨Ne.symm hij, by simpa [hij] using h⟩

def bound (s : Storage) : List Nat := s.allocations.filterMap fun a => a.binding.slot?

variable {s : Storage} {config : CompileConfig} {r : Request} {requests : List Request}

@[simp] theorem bound_bind (s : Storage) (r : Request) (binding : Binding) (slots : List Slot) :
    (s.bind r binding slots).bound = s.bound ++ binding.slot?.toList := by
  rw [bound, bind, List.filterMap_append]
  cases binding <;> rfl

theorem mem_bound {i : Nat} : i ∈ s.bound ↔ ∃ a ∈ s.allocations, a.binding.slot? = some i :=
  List.mem_filterMap

/-! ### Kinds of bindings -/

theorem isPooled_iff : r.isPooled config = true ↔
    r.lifetime = .transient ∧ config.aliasing = true ∧ config.minAliasSize ≤ r.size := by
  simp [Request.isPooled, and_assoc]

/-- External resources are bound to no slot, those of the pool to shared slots. -/
structure Suited (config : CompileConfig) (a : Allocation) : Prop where
  slot : a.binding.slot? = none ↔ a.lifetime = .external
  pool : a.binding.isAliased = a.isPooled config

theorem suited_place (hs : ∀ a ∈ s.allocations, Suited config a) :
    ∀ a ∈ (s.place config r).allocations, Suited config a := by
  have hpooled (pooled : r.isPooled config = true) : r.lifetime ≠ .external := by
    rw [(isPooled_iff.mp pooled).1]
    decide
  have hbind {binding : Binding} {slots : List Slot} (hnew : Suited config ⟨r, binding⟩) :
      ∀ a ∈ (s.bind r binding slots).allocations, Suited config a :=
    List.forall_mem_append.mpr ⟨hs, List.forall_mem_singleton.mpr hnew⟩
  have hgranted := s.place_granted config r
  generalize s.place config r = t at hgranted
  cases hgranted with
  | external supplied =>
    exact hbind ⟨⟨fun _ => supplied, fun _ => rfl⟩, by
      simp [Binding.isAliased, Request.isPooled, supplied]⟩
  | joined pooled | opened pooled =>
    exact hbind ⟨by simp [Binding.slot?, hpooled pooled], by simp [Binding.isAliased, pooled]⟩
  | owned asked alone =>
    exact hbind ⟨by simp [Binding.slot?, asked], by simp [Binding.isAliased, alone]⟩

theorem allocate_suited (config : CompileConfig) (requests : List Request) :
    ∀ a ∈ (allocate config requests).allocations, Suited config a :=
  List.foldlRecOn (motive := fun s => ∀ a ∈ s.allocations, Suited config a) requests (place config)
    (by simp) fun _ hs _ _ => suited_place hs

/-! ### Counts -/

/-- Slots count the resources bound to them. -/
structure Tallied (s : Storage) : Prop where
  within : ∀ i ∈ s.bound, i < s.slots.length
  residents : ∀ (i : Nat) (slot : Slot), s.slots[i]? = some slot →
    slot.residents = s.bound.count i ∧ 0 < slot.residents
  /-- A slot that is not shared has one resident. -/
  alone : ∀ (i : Nat) (slot : Slot), s.slots[i]? = some slot → slot.busyUntil = none →
    slot.residents = 1
  shared : ∀ a ∈ s.allocations, ∀ (i : Nat) (slot : Slot), a.binding.slot? = some i →
    s.slots[i]? = some slot → slot.busyUntil.isSome = a.binding.isAliased

theorem Tallied.empty : Tallied {} := by
  constructor <;> simp [bound]

theorem Tallied.bind_external (hs : s.Tallied) (r : Request) :
    (s.bind r .external s.slots).Tallied := by
  have hbound : (s.bind r .external s.slots).bound = s.bound := by simp [Binding.slot?]
  refine ⟨hbound ▸ hs.within, hbound ▸ hs.residents, hs.alone, fun a ha i slot hi hslot => ?_⟩
  rcases List.mem_append.mp ha with ha | ha
  · exact hs.shared a ha i slot hi hslot
  · obtain rfl := List.mem_singleton.mp ha
    cases hi

theorem Tallied.bind_new (hs : s.Tallied) {binding : Binding} {busyUntil : Option Nat}
    (hbinding : binding.slot? = some s.slots.length)
    (hbusy : busyUntil.isSome = binding.isAliased) :
    (s.bind r binding (s.slots ++ [.ofRequest s.slots.length r busyUntil])).Tallied := by
  have hbound : (s.bind r binding (s.slots ++ [.ofRequest s.slots.length r busyUntil])).bound =
      s.bound ++ [s.slots.length] := by simp [hbinding]
  have hfresh : s.slots.length ∉ s.bound := fun h => Nat.lt_irrefl _ (hs.within _ h)
  constructor
  case within =>
    intro i hi
    rw [hbound] at hi
    simp only [bind, List.length_append, List.length_singleton]
    rcases List.mem_append.mp hi with hi | hi
    · exact Nat.lt_succ_of_lt (hs.within i hi)
    · rw [List.mem_singleton.mp hi]
      exact Nat.lt_succ_self _
  case residents =>
    intro i slot hslot
    rw [hbound, List.count_append, List.count_singleton]
    rcases getElem?_append_new hslot with hslot | ⟨rfl, rfl⟩
    · have hlt := (List.getElem?_eq_some_iff.mp hslot).1
      simpa [Nat.ne_of_gt hlt] using hs.residents i slot hslot
    · simp [Slot.ofRequest, List.count_eq_zero.mpr hfresh]
  case alone =>
    intro i slot hslot hnone
    rcases getElem?_append_new hslot with hslot | ⟨_, rfl⟩
    · exact hs.alone i slot hslot hnone
    · rfl
  case shared =>
    intro a ha i slot hi hslot
    rcases List.mem_append.mp ha with ha | ha
    · have hlt := hs.within i (mem_bound.mpr ⟨a, ha, hi⟩)
      exact hs.shared a ha i slot hi (by rwa [bind, List.getElem?_append_left hlt] at hslot)
    · obtain rfl := List.mem_singleton.mp ha
      obtain rfl := Option.some.inj (hbinding.symm.trans hi)
      obtain rfl := Option.some.inj (List.getElem?_concat_length.symm.trans hslot)
      exact hbusy

theorem Tallied.bind_join (hs : s.Tallied) {i : Nat}
    (found : (s.slots.findIdx? fun slot => slot.accepts r) = some i) :
    (s.bind r (.aliased i) (s.slots.modify i fun slot => slot.join r)).Tallied := by
  obtain ⟨hlt, haccepts, _⟩ := List.findIdx?_eq_some_iff_getElem.mp found
  obtain ⟨_, last, hlast, _⟩ := accepts_iff.mp haccepts
  have hbound : (s.bind r (.aliased i) (s.slots.modify i fun slot => slot.join r)).bound =
      s.bound ++ [i] := by simp [Binding.slot?]
  constructor
  case within =>
    intro j hj
    rw [hbound] at hj
    simp only [bind, List.length_modify]
    rcases List.mem_append.mp hj with hj | hj
    · exact hs.within j hj
    · rwa [List.mem_singleton.mp hj]
  case residents =>
    intro j slot hslot
    rw [hbound, List.count_append, List.count_singleton]
    rcases getElem?_modify_join hslot with ⟨hne, hslot⟩ | ⟨rfl, old, hold, rfl⟩
    · simpa [Ne.symm hne] using hs.residents j slot hslot
    · simp [Slot.join, (hs.residents j old hold).1]
  case alone =>
    intro j slot hslot hnone
    rcases getElem?_modify_join hslot with ⟨_, hslot⟩ | ⟨_, _, _, rfl⟩
    · exact hs.alone j slot hslot hnone
    · cases hnone
  case shared =>
    intro a hmem j slot hj hslot
    rcases List.mem_append.mp hmem with ha | ha
    · rcases getElem?_modify_join hslot with ⟨_, hslot⟩ | ⟨rfl, _, _, rfl⟩
      · exact hs.shared a ha j slot hj hslot
      · rw [← hs.shared a ha j _ hj (List.getElem?_eq_getElem hlt), hlast]
        rfl
    · obtain rfl := List.mem_singleton.mp ha
      obtain rfl := Option.some.inj hj
      rcases getElem?_modify_join hslot with ⟨hne, _⟩ | ⟨_, _, _, rfl⟩
      · exact absurd rfl hne
      · rfl

theorem Tallied.place (hs : s.Tallied) (config : CompileConfig) (r : Request) :
    (s.place config r).Tallied := by
  have hgranted := s.place_granted config r
  generalize s.place config r = t at hgranted
  cases hgranted with
  | external => exact hs.bind_external r
  | joined _ found => exact hs.bind_join found
  | opened => exact hs.bind_new rfl rfl
  | owned => exact hs.bind_new rfl rfl

theorem allocate_tallied (config : CompileConfig) (requests : List Request) :
    (allocate config requests).Tallied :=
  List.foldlRecOn requests (Storage.place config) .empty fun _ hs r _ => hs.place config r

/-- There are as many slots as numbers among the bindings. -/
theorem Tallied.length_slots (hs : s.Tallied) : s.slots.length = s.bound.toFinset.card := by
  have hrange : s.bound.toFinset = Finset.range s.slots.length := by
    ext i
    rw [List.mem_toFinset, Finset.mem_range]
    refine ⟨hs.within i, fun hi => ?_⟩
    obtain ⟨hcount, hpos⟩ := hs.residents i _ (List.getElem?_eq_getElem hi)
    exact List.count_pos_iff.mp (hcount ▸ hpos)
  rw [hrange, Finset.card_range]

/-- A resource whose slot has more than one resident is a transient of the pool. -/
theorem Tallied.isAliased (hs : s.Tallied) {a : Allocation} (ha : a ∈ s.allocations) {i : Nat}
    (hi : a.binding.slot? = some i) (hmany : 1 < s.bound.count i) : a.binding.isAliased = true := by
  have hlt := hs.within i (mem_bound.mpr ⟨a, ha, hi⟩)
  have hslot := List.getElem?_eq_getElem hlt
  rw [← hs.shared a ha i _ hi hslot, Option.isSome_iff_ne_none]
  intro hnone
  have hone := hs.alone i _ hslot hnone
  rw [(hs.residents i _ hslot).1] at hone
  omega

/-- Resources at two places that share a slot are transients of the pool. -/
theorem Tallied.isAliased_of_shared (hs : s.Tallied) {x y : Nat} {a b : Allocation}
    (ha : s.allocations[x]? = some a) (hb : s.allocations[y]? = some b) (hne : x ≠ y) {i : Nat}
    (hai : a.binding.slot? = some i) (hbi : b.binding.slot? = some i) :
    a.binding.isAliased = true := by
  -- one of the two places comes before a cut, the other after it
  have htwice (n : Nat) (hfront : ∃ c ∈ s.allocations.take n, c.binding.slot? = some i)
      (hback : ∃ c ∈ s.allocations.drop n, c.binding.slot? = some i) : 1 < s.bound.count i := by
    have hsplit : s.bound = (s.allocations.take n).filterMap (fun a => a.binding.slot?) ++
        (s.allocations.drop n).filterMap fun a => a.binding.slot? := by
      rw [← List.filterMap_append, List.take_append_drop, bound]
    have h1 := List.count_pos_iff.mpr (List.mem_filterMap.mpr hfront)
    have h2 := List.count_pos_iff.mpr (List.mem_filterMap.mpr hback)
    rw [hsplit, List.count_append]
    omega
  have hfront {n z : Nat} {c : Allocation} (hz : s.allocations[z]? = some c) (h : z < n) :
      c ∈ s.allocations.take n := List.mem_of_getElem? ((List.getElem?_take_of_lt h).trans hz)
  have hback {z : Nat} {c : Allocation} (hz : s.allocations[z]? = some c) :
      c ∈ s.allocations.drop z :=
    List.mem_of_getElem? (i := 0) (by rw [List.getElem?_drop, Nat.add_zero, hz])
  refine hs.isAliased (List.mem_of_getElem? ha) hai ?_
  rcases Nat.lt_or_gt_of_ne hne with hlt | hgt
  · exact htwice y ⟨a, hfront ha hlt, hai⟩ ⟨b, hback hb, hbi⟩
  · exact htwice x ⟨b, hfront hb hgt, hbi⟩ ⟨a, hback ha, hai⟩

/-- Each resource has its slot to itself when there are as many slots as resources in them. -/
theorem Tallied.length_slots_eq (hs : s.Tallied) :
    s.slots.length = s.bound.length ↔ s.bound.Nodup := by
  rw [hs.length_slots]
  exact Multiset.toFinset_card_eq_card_iff_nodup (m := (s.bound : Multiset Nat))

/-- How many resources have slots does not depend on the settings. -/
theorem length_bound (config : CompileConfig) (requests : List Request) :
    (allocate config requests).bound.length =
      requests.countP fun r => decide (r.lifetime ≠ .external) := by
  have hsome : ∀ a ∈ (allocate config requests).allocations,
      (a.binding.slot?.isSome = true ↔ decide (a.lifetime ≠ .external) = true) := by
    intro a ha
    rw [Option.isSome_iff_ne_none, ne_eq, (allocate_suited config requests a ha).slot,
      decide_eq_true_eq]
  rw [bound, List.length_filterMap_eq_countP, List.countP_congr hsome]
  conv_rhs => rw [← allocate_toRequest config requests, List.countP_map]
  rfl

/-- No transient is counted as sharing exactly when no two resources share a slot. -/
theorem Tallied.aliasedCount_eq_zero (hs : s.Tallied) : s.aliasedCount = 0 ↔ s.bound.Nodup := by
  rw [aliasedCount, List.countP_eq_zero, List.nodup_iff_count_le_one]
  constructor
  · intro hnone i
    by_contra hmany
    have hmany := Nat.lt_of_not_le hmany
    obtain ⟨a, ha, hi⟩ := mem_bound.mp (List.count_pos_iff.mp (Nat.zero_lt_of_lt hmany))
    have halone := hnone a ha
    have haliased := hs.isAliased ha hi hmany
    have hslot := List.getElem?_eq_getElem (hs.within i (mem_bound.mpr ⟨a, ha, hi⟩))
    cases hbinding : a.binding with
    | external | dedicated => simp [hbinding, Binding.isAliased] at haliased
    | aliased j =>
      rw [hbinding] at hi
      obtain rfl := Option.some.inj hi
      simp only [hbinding, hslot, Option.any_some, decide_eq_true_eq] at halone
      exact halone ((hs.residents j _ hslot).1 ▸ hmany)
  · intro hfew a ha hmany
    split at hmany
    · next i _ =>
      obtain ⟨slot, hslot, hshared⟩ := Option.any_eq_true _ _ |>.mp hmany
      have hcount := (hs.residents i slot hslot).1
      have hle := hfew i
      have hlt := of_decide_eq_true hshared
      omega
    · cases hmany

end Storage

end FrameGraph
