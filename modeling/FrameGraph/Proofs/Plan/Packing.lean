import Mathlib.Logic.Function.Basic
import FrameGraph.Plan.Storage

/-! Packing resources into slots. A slot remembers only until when its latest resident is
used, yet no two of its residents are ever live together: each new resident begins after
the latest one ended, which itself began after all earlier ones had ended. So a walk over
the steps that stores what each of them produces keeps every resource in its slot for as
long as it is live, also when it leaves out some of the steps. -/

namespace FrameGraph

namespace Storage

/-- Residents of a slot are on its device, in turn, and dead when the slot says so. Only external
resources have no slot. -/
structure Packed (s : Storage) : Prop where
  bound : ∀ a ∈ s.allocations, a.binding.slot? = none → a.lifetime = .external
  housed : ∀ a ∈ s.allocations, ∀ i, a.binding.slot? = some i →
    ∃ slot, s.slots[i]? = some slot ∧ slot.device = a.device ∧
      ∀ last, slot.busyUntil = some last → a.lastUse ≤ last
  inTurn : s.allocations.Pairwise fun a b => ∀ i, a.binding.slot? = some i →
    b.binding.slot? = some i → a.lastUse < b.firstUse

variable {s : Storage} {config : CompileConfig} {r : Request}

theorem Packed.empty : Packed {} := by
  constructor
  · intro a ha
    cases ha
  · intro a ha
    cases ha
  · exact List.Pairwise.nil

/-- What a new resident asks of its slot: to be there, on its device and free in time. -/
theorem Packed.bind (hs : s.Packed) {binding : Binding} {slots : List Slot}
    (external : binding.slot? = none → r.lifetime = .external)
    (kept : ∀ i slot, s.slots[i]? = some slot → ∃ slot', slots[i]? = some slot' ∧
      slot'.device = slot.device ∧ (binding.slot? ≠ some i → slot'.busyUntil = slot.busyUntil))
    (free : ∀ i slot, s.slots[i]? = some slot → binding.slot? = some i →
      ∃ last, slot.busyUntil = some last ∧ last < r.firstUse)
    (house : ∀ i, binding.slot? = some i → ∃ slot, slots[i]? = some slot ∧
      slot.device = r.device ∧ ∀ last, slot.busyUntil = some last → last = r.lastUse)
    (hr : r.firstUse ≤ r.lastUse) : (s.bind r binding slots).Packed := by
  have hbefore (a : Allocation) (ha : a ∈ s.allocations) (i : Nat) (hi : a.binding.slot? = some i)
      (hb : binding.slot? = some i) : a.lastUse < r.firstUse := by
    obtain ⟨slot, hslot, _, hdead⟩ := hs.housed a ha i hi
    obtain ⟨last, hlast, hlt⟩ := free i slot hslot hb
    exact Nat.lt_of_le_of_lt (hdead last hlast) hlt
  constructor
  · intro a ha
    rcases List.mem_append.mp ha with ha | ha
    · exact hs.bound a ha
    · obtain rfl := List.mem_singleton.mp ha
      exact external
  · intro a ha i hi
    rcases List.mem_append.mp ha with ha | ha
    · obtain ⟨slot, hslot, hdevice, hdead⟩ := hs.housed a ha i hi
      obtain ⟨slot', hslot', hdevice', hbusy⟩ := kept i slot hslot
      refine ⟨slot', hslot', hdevice'.trans hdevice, fun last hlast => ?_⟩
      by_cases hb : binding.slot? = some i
      · obtain ⟨own, hown, _, hend⟩ := house i hb
        obtain rfl : slot' = own := Option.some.inj (hslot'.symm.trans hown)
        have hlt := hbefore a ha i hi hb
        rw [hend last hlast]
        omega
      · exact hdead last ((hbusy hb).symm.trans hlast)
    · obtain rfl := List.mem_singleton.mp ha
      obtain ⟨slot, hslot, hdevice, hend⟩ := house i hi
      exact ⟨slot, hslot, hdevice, fun last hlast => Nat.le_of_eq (hend last hlast).symm⟩
  · refine List.pairwise_append.mpr ⟨hs.inTurn, List.pairwise_singleton _ _, fun a ha b hb => ?_⟩
    obtain rfl := List.mem_singleton.mp hb
    exact hbefore a ha

theorem Packed.bind_new (hs : s.Packed) {binding : Binding} {busyUntil : Option Nat}
    (hbinding : binding.slot? = some s.slots.length)
    (hbusy : ∀ last, busyUntil = some last → last = r.lastUse) (hr : r.firstUse ≤ r.lastUse) :
    (s.bind r binding (s.slots ++ [.ofRequest s.slots.length r busyUntil])).Packed := by
  refine hs.bind (fun hnone => nomatch hbinding.symm.trans hnone) (fun i slot hslot => ?_)
    (fun i slot hslot hi => ?_) (fun i hi => ?_) hr
  · have hlt := (List.getElem?_eq_some_iff.mp hslot).1
    exact ⟨slot, by rw [List.getElem?_append_left hlt, hslot], rfl, fun _ => rfl⟩
  · have hlt := (List.getElem?_eq_some_iff.mp hslot).1
    obtain rfl := Option.some.inj (hbinding.symm.trans hi)
    exact absurd hlt (Nat.lt_irrefl _)
  · obtain rfl := Option.some.inj (hbinding.symm.trans hi)
    exact ⟨_, List.getElem?_concat_length, rfl, hbusy⟩

theorem accepts_iff {slot : Slot} : slot.accepts r = true ↔
    slot.device = r.device ∧ ∃ last, slot.busyUntil = some last ∧ last < r.firstUse := by
  simp [Slot.accepts, Option.any_eq_true]

/-- A slot that accepts a resource houses it. -/
theorem Packed.bind_join (hs : s.Packed) {i : Nat}
    (hi : (s.slots.findIdx? fun slot => slot.accepts r) = some i) (hr : r.firstUse ≤ r.lastUse) :
    (s.bind r (.aliased i) (s.slots.modify i fun slot => slot.join r)).Packed := by
  obtain ⟨hlt, haccepts, _⟩ := List.findIdx?_eq_some_iff_getElem.mp hi
  obtain ⟨hdevice, last, hlast, hfree⟩ := accepts_iff.mp haccepts
  refine hs.bind (fun hnone => nomatch hnone) (fun j slot hslot => ?_)
    (fun j slot hslot hj => ?_) (fun j hj => ?_) hr
  · rw [List.getElem?_modify, hslot]
    by_cases hij : i = j
    · exact ⟨slot.join r, by simp [hij], rfl, fun hne => absurd (congrArg some hij) hne⟩
    · exact ⟨slot, by simp [hij], rfl, fun _ => rfl⟩
  · obtain rfl : i = j := Option.some.inj hj
    obtain rfl : s.slots[i] = slot :=
      Option.some.inj ((List.getElem?_eq_getElem hlt).symm.trans hslot)
    exact ⟨last, hlast, hfree⟩
  · obtain rfl : i = j := Option.some.inj hj
    refine ⟨(s.slots[i]).join r, ?_, hdevice, fun last hlast => (Option.some.inj hlast).symm⟩
    rw [List.getElem?_modify, List.getElem?_eq_getElem hlt]
    simp

theorem Packed.place (hs : s.Packed) (hr : r.firstUse ≤ r.lastUse) : (s.place config r).Packed := by
  unfold Storage.place
  split
  · next hexternal =>
    exact hs.bind (fun _ => hexternal) (fun i slot hslot => ⟨slot, hslot, rfl, fun _ => rfl⟩)
      (fun i slot _ hi => nomatch hi) (fun i hi => nomatch hi) hr
  · split
    · split
      · next i hi => exact hs.bind_join hi hr
      · exact hs.bind_new rfl (fun last hlast => (Option.some.inj hlast).symm) hr
    · exact hs.bind_new rfl (fun last hlast => nomatch hlast) hr

theorem place_toRequest (s : Storage) (config : CompileConfig) (r : Request) :
    (s.place config r).allocations.map Allocation.toRequest =
      s.allocations.map Allocation.toRequest ++ [r] := by
  have hbind (binding : Binding) (slots : List Slot) :
      (s.bind r binding slots).allocations.map Allocation.toRequest =
        s.allocations.map Allocation.toRequest ++ [r] := by
    simp [bind]
  unfold place
  split
  · exact hbind _ _
  · split
    · split <;> exact hbind _ _
    · exact hbind _ _

theorem allocate_toRequest (config : CompileConfig) (requests : List Request) :
    (allocate config requests).allocations.map Allocation.toRequest = requests := by
  have hfold (s : Storage) : (requests.foldl (place config) s).allocations.map
      Allocation.toRequest = s.allocations.map Allocation.toRequest ++ requests := by
    induction requests generalizing s with
    | nil => simp
    | cons r requests ih => rw [List.foldl_cons, ih, place_toRequest, List.append_assoc]; rfl
  exact hfold {}

theorem allocate_packed (config : CompileConfig) (requests : List Request)
    (h : ∀ r ∈ requests, r.firstUse ≤ r.lastUse) : (allocate config requests).Packed := by
  have hfold (s : Storage) (hs : s.Packed) : (requests.foldl (place config) s).Packed := by
    induction requests generalizing s with
    | nil => exact hs
    | cons r requests ih =>
      exact ih (fun r' hr' => h r' (by simp [hr'])) _ (hs.place (h r (by simp)))
  exact hfold {} .empty

theorem Packed.disjoint (hs : s.Packed) {i j : Nat} {a b : Allocation}
    (ha : s.allocations[i]? = some a) (hb : s.allocations[j]? = some b) (hne : i ≠ j) {slot : Nat}
    (haslot : a.binding.slot? = some slot) (hbslot : b.binding.slot? = some slot) :
    (a.lastUse < b.firstUse ∨ b.lastUse < a.firstUse) ∧ a.device = b.device := by
  obtain ⟨hi, rfl⟩ := List.getElem?_eq_some_iff.mp ha
  obtain ⟨hj, rfl⟩ := List.getElem?_eq_some_iff.mp hb
  constructor
  · rcases Nat.lt_or_gt_of_ne hne with hlt | hgt
    · exact .inl (List.pairwise_iff_getElem.mp hs.inTurn i j hi hj hlt slot haslot hbslot)
    · exact .inr (List.pairwise_iff_getElem.mp hs.inTurn j i hj hi hgt slot hbslot haslot)
  · obtain ⟨x, hx, hxdevice, _⟩ := hs.housed _ (List.getElem_mem hi) slot haslot
    obtain ⟨y, hy, hydevice, _⟩ := hs.housed _ (List.getElem_mem hj) slot hbslot
    obtain rfl := Option.some.inj (hx.symm.trans hy)
    exact hxdevice.symm.trans hydevice

/-! ### Memory -/

/-- What each slot holds: the step that stored it last, and the output. -/
abbrev Memory := Nat → Option (Step × Nat)

def store (memory : Memory) (a : Allocation) : Memory :=
  match a.binding.slot? with
  | some slot => Function.update memory slot (some (a.producer, a.output))
  | none => memory

def write (s : Storage) (memory : Memory) (step : Step) : Memory :=
  (s.allocations.filter fun a => a.producer == step).foldl store memory

def walk (s : Storage) (memory : Memory) (steps : List Step) : Memory :=
  steps.foldl s.write memory

variable {memory : Memory} {slot : Nat} {order : List Step}

theorem store_same {a : Allocation} (h : a.binding.slot? = some slot) :
    store memory a slot = some (a.producer, a.output) := by
  simp [store, h]

theorem store_other {a : Allocation} (h : a.binding.slot? ≠ some slot) :
    store memory a slot = memory slot := by
  unfold store
  cases hother : a.binding.slot? with
  | none => rfl
  | some other =>
    apply Function.update_of_ne
    rintro rfl
    exact h hother

theorem foldl_store_other {l : List Allocation} (h : ∀ a ∈ l, a.binding.slot? ≠ some slot) :
    l.foldl store memory slot = memory slot := by
  induction l generalizing memory with
  | nil => rfl
  | cons a l ih =>
    rw [List.foldl_cons, ih fun b hb => h b (by simp [hb]), store_other (h a (by simp))]

/-- A step without a resident of the slot leaves it alone. -/
theorem write_other {step : Step}
    (h : ∀ a ∈ s.allocations, a.producer = step → a.binding.slot? ≠ some slot) :
    s.write memory step slot = memory slot := by
  apply foldl_store_other
  intro a ha
  obtain ⟨hmem, hproducer⟩ := List.mem_filter.mp ha
  exact h a hmem (beq_iff_eq.mp hproducer)

/-- The resources of a step begin together, so that at most one of them is in a slot. -/
theorem Packed.write_same (hs : s.Packed) {a : Allocation} (ha : a ∈ s.allocations)
    (hslot : a.binding.slot? = some slot) (hlive : a.firstUse ≤ a.lastUse)
    (htogether : ∀ b ∈ s.allocations, b.producer = a.producer → b.firstUse = a.firstUse) :
    s.write memory a.producer slot = some (a.producer, a.output) := by
  obtain ⟨before, after, hsplit⟩ := List.append_of_mem ha
  have hafter : ∀ b ∈ after.filter fun b => b.producer == a.producer,
      b.binding.slot? ≠ some slot := by
    intro b hb hbslot
    obtain ⟨hmem, hproducer⟩ := List.mem_filter.mp hb
    have hturn := hs.inTurn
    rw [hsplit, List.pairwise_append] at hturn
    have hlt := (List.pairwise_cons.mp hturn.2.1).1 b hmem slot hslot hbslot
    have heq := htogether b (by rw [hsplit]; simp [hmem]) (beq_iff_eq.mp hproducer)
    omega
  have hhead : (a :: after).filter (fun b => b.producer == a.producer) =
      a :: after.filter fun b => b.producer == a.producer :=
    List.filter_cons_of_pos (beq_self_eq_true a.producer)
  rw [write, hsplit, List.filter_append, hhead, List.foldl_append, List.foldl_cons,
    foldl_store_other hafter, store_same hslot]

/-! ### Walks -/

variable {steps : List Step} {a : Allocation}

theorem walk_append (s : Storage) (memory : Memory) (first rest : List Step) :
    s.walk memory (first ++ rest) = s.walk (s.walk memory first) rest :=
  List.foldl_append

theorem walk_other (h : ∀ b ∈ s.allocations, b.binding.slot? = some slot → b.producer ∉ steps) :
    s.walk memory steps slot = memory slot := by
  induction steps generalizing memory with
  | nil => rfl
  | cons x rest ih =>
    have hx : s.write memory x slot = memory slot := write_other fun b hb hproducer hbslot =>
      h b hb hbslot (by simp [hproducer])
    have hrest : s.walk (s.write memory x) rest slot = s.write memory x slot :=
      ih fun b hb hbslot hmem => h b hb hbslot (List.mem_cons_of_mem x hmem)
    exact hrest.trans hx

/-- The steps of a plan begin the lifetimes of what they produce. -/
structure Placed (s : Storage) (order : List Step) : Prop where
  nodup : order.Nodup
  live : ∀ a ∈ s.allocations, a.firstUse ≤ a.lastUse
  first : ∀ a ∈ s.allocations, order[a.firstUse]? = some a.producer

theorem Placed.firstUse_eq (hp : s.Placed order) (ha : a ∈ s.allocations) {k : Nat}
    (hk : order[k]? = some a.producer) : a.firstUse = k := by
  have hlt := (List.getElem?_eq_some_iff.mp (hp.first a ha)).1
  exact (List.getElem?_inj hlt hp.nodup).mp ((hp.first a ha).trans hk.symm)

theorem Placed.pairwise (hp : s.Placed order) : order.Pairwise fun x y =>
    ∀ a ∈ s.allocations, ∀ b ∈ s.allocations, a.producer = x → b.producer = y →
      a.firstUse < b.firstUse := by
  rw [List.pairwise_iff_getElem]
  intro i j hi hj hij a ha b hb hx hy
  rwa [hp.firstUse_eq ha (hx ▸ List.getElem?_eq_getElem hi),
    hp.firstUse_eq hb (hy ▸ List.getElem?_eq_getElem hj)]

/-- A resource is in its slot when none of its other residents was stored after it. -/
theorem Packed.walk_last (hs : s.Packed) (hp : s.Placed order) (ha : a ∈ s.allocations)
    (hslot : a.binding.slot? = some slot) (hran : a.producer ∈ steps)
    (hlast : ∀ first rest, steps = first ++ a.producer :: rest → a.producer ∉ rest →
      ∀ b ∈ s.allocations, b.binding.slot? = some slot → b.producer ∉ rest) :
    s.walk memory steps slot = some (a.producer, a.output) := by
  obtain ⟨rest, first, hsplit, hnot⟩ := List.eq_append_cons_of_mem (List.mem_reverse.mpr hran)
  have hsteps : steps = first.reverse ++ a.producer :: rest.reverse := by
    rw [← List.reverse_reverse steps, hsplit]
    simp
  have hothers := hlast _ _ hsteps (by simpa using hnot)
  have hwrite : s.walk (s.walk memory first.reverse) (a.producer :: rest.reverse) slot =
      s.write (s.walk memory first.reverse) a.producer slot := walk_other hothers
  rw [hsteps, walk_append, hwrite]
  apply hs.write_same ha hslot (hp.live a ha)
  intro b hb hproducer
  exact hp.firstUse_eq hb (hproducer ▸ hp.first a ha)

/-- A resource that has its slot to itself stays there for good. -/
theorem Packed.walk_alone (hs : s.Packed) (hp : s.Placed order) (ha : a ∈ s.allocations)
    (hslot : a.binding.slot? = some slot) (hran : a.producer ∈ steps)
    (halone : ∀ b ∈ s.allocations, b.binding.slot? = some slot → b = a) :
    s.walk memory steps slot = some (a.producer, a.output) :=
  hs.walk_last hp ha hslot hran fun _ _ _ hnot b hb hbslot => halone b hb hbslot ▸ hnot

/-- Leaving out steps does no harm to a resource that is stored in the same pass. -/
theorem Packed.walk_pass (hs : s.Packed) (hp : s.Placed order) (ha : a ∈ s.allocations)
    (hslot : a.binding.slot? = some slot) (hran : a.producer ∈ steps) {k : Nat}
    (hsteps : steps.Sublist (order.take k)) (hlast : k ≤ a.lastUse) :
    s.walk memory steps slot = some (a.producer, a.output) := by
  apply hs.walk_last hp ha hslot hran
  intro first rest hsplit hnot b hb hbslot hmem
  have hlater : a.firstUse < b.firstUse := by
    have hpairs := hp.pairwise.sublist (hsteps.trans (List.take_sublist k order))
    rw [hsplit, List.pairwise_append, List.pairwise_cons] at hpairs
    exact hpairs.2.1.1 _ hmem a ha b hb rfl rfl
  have hbefore : b.firstUse < k := by
    obtain ⟨m, hm⟩ := List.mem_iff_getElem?.mp (hsteps.subset (show b.producer ∈ steps by
      rw [hsplit]
      simp [hmem]))
    rw [List.getElem?_take] at hm
    split at hm
    · next hlt => rwa [hp.firstUse_eq hb hm]
    · cases hm
  -- the other resident would begin while this one lives
  obtain ⟨i, hi⟩ := List.mem_iff_getElem?.mp ha
  obtain ⟨j, hj⟩ := List.mem_iff_getElem?.mp hb
  have hne : i ≠ j := by
    rintro rfl
    obtain rfl := Option.some.inj (hi.symm.trans hj)
    exact hnot hmem
  have hblive := hp.live b hb
  rcases (hs.disjoint hi hj hne hslot hbslot).1 with h | h <;> omega

end Storage

end FrameGraph
