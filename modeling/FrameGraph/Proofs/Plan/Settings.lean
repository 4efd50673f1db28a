import Mathlib.Combinatorics.Enumerative.DoubleCounting
import FrameGraph.Proofs.Plan.Coloring

/-! What the compiler settings do to storage. Each request is granted under all settings,
and only the slots differ. A larger pool never needs more slots: where it opens one, it
does so for resources that are live together, and these have slots apart in a smaller
pool too. Without sharing, every resource has a slot of its own size; sharing only
takes the larger of two sizes where it saves a slot. -/

namespace FrameGraph

namespace Storage

variable {c d : CompileConfig} {s : Storage} {requests : List Request}

/-! ### The number of slots -/

/-- Each slot has a resident, for a shared one a resident that is live at the peak of its device. -/
theorem Crowded.exists_resident (hs : s.Crowded) (ht : s.Tallied) (hp : s.Packed) :
    ∃ peak : Device → Nat, ∀ i < s.slots.length, ∃ (x : Nat) (a : Allocation),
      s.allocations[x]? = some a ∧ a.binding.slot? = some i ∧
      (a.binding.isAliased = true → a.liveAt (peak a.device) = true) := by
  choose peak hpeak using hs.peak
  refine ⟨peak, fun i hi => ?_⟩
  have hslot := List.getElem?_eq_getElem hi
  obtain ⟨hcount, hpos⟩ := ht.residents i _ hslot
  obtain ⟨a, ha, hai⟩ := mem_bound.mp (List.count_pos_iff.mp (hcount ▸ hpos))
  by_cases haliased : a.binding.isAliased = true
  · obtain ⟨b, hb, hbound, hlive⟩ := hpeak _ i _ hslot rfl
      ((ht.shared a ha i _ hai hslot).trans haliased)
    have hbi : b.binding.slot? = some i := by rw [hbound]; rfl
    obtain ⟨slot, hget, hdevice, _⟩ := hp.housed b hb i hbi
    obtain rfl := Option.some.inj (hget.symm.trans hslot)
    obtain ⟨y, hy⟩ := List.mem_iff_getElem?.mp hb
    exact ⟨y, b, hy, hbi, fun _ => hdevice ▸ hlive⟩
  · obtain ⟨x, hx⟩ := List.mem_iff_getElem?.mp ha
    exact ⟨x, a, hx, hai, fun h => absurd h haliased⟩

variable {x y : Nat} {a b a' b' : Allocation}

theorem toRequest_mem (ha : (allocate c requests).allocations[x]? = some a) :
    a.toRequest ∈ requests := by
  rw [← allocate_toRequest c requests]
  exact List.mem_map_of_mem (List.mem_of_getElem? ha)

theorem toRequest_eq (ha : (allocate c requests).allocations[x]? = some a)
    (ha' : (allocate d requests).allocations[x]? = some a') : a.toRequest = a'.toRequest := by
  have hsame : ((allocate c requests).allocations.map Allocation.toRequest)[x]? =
      ((allocate d requests).allocations.map Allocation.toRequest)[x]? := by
    rw [allocate_toRequest, allocate_toRequest]
  rw [List.getElem?_map, List.getElem?_map, ha, ha'] at hsame
  exact Option.some.inj hsame

/-- What has a slot under one setting has one under any other. -/
theorem exists_counterpart (ha : (allocate d requests).allocations[x]? = some a) {i : Nat}
    (hai : a.binding.slot? = some i) : ∃ b n, (allocate c requests).allocations[x]? = some b ∧
      b.binding.slot? = some n ∧ n < (allocate c requests).slots.length := by
  have hlength : x < (allocate c requests).allocations.length := by
    have hx := (List.getElem?_eq_some_iff.mp ha).1
    have hsame := congrArg List.length ((allocate_toRequest c requests).trans
      (allocate_toRequest d requests).symm)
    simp only [List.length_map] at hsame
    omega
  have hb := List.getElem?_eq_getElem hlength
  have hmem := List.getElem_mem hlength
  refine ⟨(allocate c requests).allocations[x], ?_⟩
  cases hslot : (allocate c requests).allocations[x].binding.slot? with
  | none =>
    have hexternal := (allocate_suited c requests _ hmem).slot.mp hslot
    rw [toRequest_eq hb ha] at hexternal
    have hnone := (allocate_suited d requests a (List.mem_of_getElem? ha)).slot.mpr hexternal
    exact nomatch hnone.symm.trans hai
  | some n =>
    exact ⟨n, hb, rfl, (allocate_tallied c requests).within n (mem_bound.mpr ⟨_, hmem, hslot⟩)⟩

/-- What shares a slot of a smaller pool is in a larger one. -/
theorem isAliased_of_smaller (hpool : ∀ r ∈ requests, r.isPooled c = true → r.isPooled d = true)
    (ha : (allocate d requests).allocations[x]? = some a)
    (ha' : (allocate c requests).allocations[x]? = some a')
    (hb' : (allocate c requests).allocations[y]? = some b') (hne : x ≠ y) {n : Nat}
    (han : a'.binding.slot? = some n) (hbn : b'.binding.slot? = some n) :
    a.binding.isAliased = true := by
  have haliased := (allocate_tallied c requests).isAliased_of_shared ha' hb' hne han hbn
  rw [(allocate_suited c requests a' (List.mem_of_getElem? ha')).pool, toRequest_eq ha' ha]
    at haliased
  rw [(allocate_suited d requests a (List.mem_of_getElem? ha)).pool]
  exact hpool _ (toRequest_mem ha) haliased

/-- A resident of one slot in one storage, live at the peak of its device if the slot is shared, is
kept by the other storage in the other slot. -/
def Rehoused (large small : Storage) (peak : Device → Nat) (i n : Nat) : Prop :=
  ∃ (x : Nat) (a b : Allocation), large.allocations[x]? = some a ∧ a.binding.slot? = some i ∧
    (a.binding.isAliased = true → a.liveAt (peak a.device) = true) ∧
    small.allocations[x]? = some b ∧ b.binding.slot? = some n

/-- A slot of the smaller pool takes in one slot of the larger: two residents of it, both live at
the peak, would be live together. -/
theorem rehoused_unique (h : InOrder requests)
    (hpool : ∀ r ∈ requests, r.isPooled c = true → r.isPooled d = true) {peak : Device → Nat}
    {i j n : Nat} (hi : Rehoused (allocate d requests) (allocate c requests) peak i n)
    (hj : Rehoused (allocate d requests) (allocate c requests) peak j n) : i = j := by
  obtain ⟨x, a, a', ha, hai, halive, ha', han⟩ := hi
  obtain ⟨y, b, b', hb, hbj, hblive, hb', hbn⟩ := hj
  by_cases hxy : x = y
  · subst hxy
    obtain rfl := Option.some.inj (ha.symm.trans hb)
    exact Option.some.inj (hai.symm.trans hbj)
  · have hapeak := halive (isAliased_of_smaller hpool ha ha' hb' hxy han hbn)
    have hbpeak := hblive (isAliased_of_smaller hpool hb hb' ha' (Ne.symm hxy) hbn han)
    obtain ⟨hdisjoint, hdevice⟩ :=
      (allocate_packed c requests h.live).disjoint ha' hb' hxy han hbn
    rw [toRequest_eq ha' ha, toRequest_eq hb' hb] at hdisjoint hdevice
    rw [← hdevice] at hbpeak
    have hoverlap := Request.overlaps_iff.mp (Request.overlaps_of_liveAt hapeak hbpeak)
    omega

/-- A larger pool takes no more slots. -/
theorem allocate_slots_le (h : InOrder requests)
    (hpool : ∀ r ∈ requests, r.isPooled c = true → r.isPooled d = true) :
    (allocate d requests).slots.length ≤ (allocate c requests).slots.length := by
  obtain ⟨peak, hpeak⟩ := (allocate_crowded d h).exists_resident (allocate_tallied d requests)
    (allocate_packed d requests h.live)
  rw [← Finset.card_range (allocate d requests).slots.length,
    ← Finset.card_range (allocate c requests).slots.length]
  apply Finset.card_le_card_of_forall_subsingleton
    (Rehoused (allocate d requests) (allocate c requests) peak)
  · intro i hi
    obtain ⟨x, a, ha, hai, hlive⟩ := hpeak i (Finset.mem_range.mp hi)
    obtain ⟨b, n, hb, hbn, hn⟩ := exists_counterpart (c := c) ha hai
    exact ⟨n, Finset.mem_range.mpr hn, x, a, b, ha, hai, hlive, hb, hbn⟩
  · rintro n _ i ⟨_, hi⟩ j ⟨_, hj⟩
    exact rehoused_unique h hpool hi hj

/-! ### Without sharing -/

theorem isPooled_of_off (hc : c.aliasing = false) (r : Request) : r.isPooled c = false := by
  simp [Request.isPooled, hc]

/-- The bytes of a request that are not the application's. -/
def footprint (r : Request) : Nat := if r.lifetime = .external then 0 else r.size

theorem size_eq (s : Storage) : s.size = (s.slots.map Slot.size).sum := by
  rw [size, List.sum_eq_foldl, List.foldl_map]

theorem size_place_le (config : CompileConfig) (s : Storage) (r : Request) :
    (s.place config r).size ≤ s.size + footprint r := by
  have hgranted := s.place_granted config r
  generalize s.place config r = t at hgranted
  have hasked (pooled : r.isPooled config = true) : footprint r = r.size :=
    if_neg (by rw [(isPooled_iff.mp pooled).1]; decide)
  simp only [size_eq]
  cases hgranted with
  | external => exact Nat.le_add_right _ _
  | joined pooled found =>
    rename_i i
    obtain ⟨hlt, _, _⟩ := List.findIdx?_eq_some_iff_getElem.mp found
    have hold : (s.slots.map Slot.size).sum = ((s.slots.take i).map Slot.size).sum +
        (s.slots[i].size + ((s.slots.drop (i + 1)).map Slot.size).sum) := by
      rw [← List.sum_cons, ← List.map_cons, ← List.drop_eq_getElem_cons hlt, ← List.sum_append,
        ← List.map_append, List.take_append_drop]
    rw [hasked pooled, hold, bind, List.modify_eq_take_cons_drop hlt, List.map_append,
      List.sum_append, List.map_cons, List.sum_cons]
    simp only [Slot.join]
    omega
  | opened pooled =>
    rw [hasked pooled]
    simp [bind, Slot.ofRequest]
  | owned asked =>
    simp [bind, Slot.ofRequest, footprint, asked]

theorem size_place_off (hc : c.aliasing = false) (s : Storage) (r : Request) :
    (s.place c r).size = s.size + footprint r := by
  have hgranted := s.place_granted c r
  generalize s.place c r = t at hgranted
  have hoff := isPooled_of_off hc r
  simp only [size_eq]
  cases hgranted with
  | external supplied => simp [bind, footprint, supplied]
  | joined pooled | opened pooled => simp [hoff] at pooled
  | owned asked => simp [bind, Slot.ofRequest, footprint, asked]

theorem allocate_size_le (hc : c.aliasing = false) (d : CompileConfig) (requests : List Request) :
    (allocate d requests).size ≤ (allocate c requests).size := by
  have hfold (s t : Storage) (hle : s.size ≤ t.size) :
      (requests.foldl (place d) s).size ≤ (requests.foldl (place c) t).size := by
    induction requests generalizing s t with
    | nil => exact hle
    | cons r requests ih =>
      refine ih _ _ ?_
      have hstep := size_place_le d s r
      rw [size_place_off hc]
      omega
  exact hfold {} {} (Nat.le_refl _)

theorem aliasedCount_off (hc : c.aliasing = false) (requests : List Request) :
    (allocate c requests).aliasedCount = 0 := by
  refine List.countP_eq_zero.mpr fun a ha hshared => ?_
  have hsuited := (allocate_suited c requests a ha).pool
  rw [isPooled_of_off hc] at hsuited
  split at hshared
  · next hbinding => simp [hbinding, Binding.isAliased] at hsuited
  · cases hshared

theorem allocate_slots_eq_iff (hc : c.aliasing = false) (d : CompileConfig)
    (requests : List Request) :
    (allocate d requests).slots.length = (allocate c requests).slots.length ↔
      (allocate d requests).aliasedCount = 0 := by
  have hoff := allocate_tallied c requests
  have hon := allocate_tallied d requests
  have hslots := hoff.length_slots_eq.mpr
    (hoff.aliasedCount_eq_zero.mp (aliasedCount_off hc requests))
  rw [hslots, length_bound, ← length_bound d requests, hon.length_slots_eq,
    hon.aliasedCount_eq_zero]

end Storage

end FrameGraph
