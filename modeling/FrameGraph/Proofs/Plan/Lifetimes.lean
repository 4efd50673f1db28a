import FrameGraph.Proofs.Plan.Packing
import FrameGraph.Proofs.Plan.Sources

/-! The lifetimes of resources. Each resource of a plan is requested once, by the step that
produces it, for the positions from that step to the last one that reads it; a resource
that is never read lives at its own position only. Every resource that a step reads was
requested, so the walk over the plan finds it in its slot. -/

namespace FrameGraph

theorem isGreatest_foldl_max (l : List Nat) (a : Nat) :
    IsGreatest {k | k = a ∨ k ∈ l} (l.foldl max a) := by
  induction l generalizing a with
  | nil => simp [IsGreatest, upperBounds]
  | cons b l ih =>
    obtain ⟨hmem, hmax⟩ := ih (max a b)
    rw [List.foldl_cons]
    have hle : max a b ≤ l.foldl max (max a b) := hmax (.inl rfl)
    constructor
    · rcases hmem with h | h
      · rcases Nat.le_total a b with hab | hba
        · exact .inr (List.mem_cons.mpr (.inl (by omega)))
        · exact .inl (by omega)
      · exact .inr (List.mem_cons_of_mem _ h)
    · rintro k (rfl | hk)
      · omega
      · rcases List.mem_cons.mp hk with rfl | hk
        · omega
        · exact hmax (.inr hk)

namespace Plan

def ReadAt (p : Plan) (r : Request) (k : Nat) : Prop :=
  ∃ reader source, p.order[k]? = some reader ∧ p.Reads reader source ∧
    source.origin = (r.producer, r.output)

/-- A request lives from the position of its producer to the last position that reads it, or only at
the first if none does. -/
structure Spans (p : Plan) (r : Request) : Prop where
  first : p.order[r.firstUse]? = some r.producer
  last : (∃ k, p.ReadAt r k) → IsGreatest {k | p.ReadAt r k} r.lastUse
  unread : (¬∃ k, p.ReadAt r k) → r.lastUse = r.firstUse

end Plan

namespace Schedule

variable {s : Schedule} {config : CompileConfig} {i : Nat}

def requestOf (s : Schedule) (i position : Nat) : Nat × Lifetime × Device × Nat → Request
  | (output, lifetime, device, size) =>
    { producer := s.stepOf i
      output, lifetime, device, size
      firstUse := position
      lastUse := lastUse s.order s.layout.uses i output position }

theorem mem_requests {r : Request} : r ∈ s.requests ↔ ∃ position i, s.order[position]? = some i ∧
    ∃ resource ∈ s.resources i, s.requestOf i position resource = r := by
  change r ∈ s.order.zipIdx.flatMap (fun pair =>
    (s.resources pair.1).map (s.requestOf pair.1 pair.2)) ↔ _
  simp only [List.mem_flatMap, List.mem_map, Prod.exists, List.mem_zipIdx_iff_getElem?]
  exact exists_comm

/-! ### Resources -/

variable {resource : Nat × Lifetime × Device × Nat}

/-- The resources of a cell are the resources among its outputs. -/
theorem mem_resources_cell (hi : i < s.layout.size) :
    resource ∈ s.resources i ↔ ∃ output port, s.outputPort? i output = some port ∧
      port.type = .resource ∧
      resource = (output, port.lifetime, s.layout.deviceOf i, port.size) := by
  obtain ⟨cell, hcell⟩ : ∃ cell, s.cell? i = some cell := ⟨_, List.getElem?_eq_getElem hi⟩
  rw [resources, if_pos hi, hcell, List.mem_filterMap]
  simp only [outputPort?, hcell, Option.map_some, Option.getD_some, Option.bind_some, Prod.exists,
    List.mem_zipIdx_iff_getElem?]
  rw [exists_comm]
  refine exists_congr fun output => exists_congr fun port => and_congr_right fun _ => ?_
  split <;> simp_all [eq_comm]

theorem mem_resources_transfer {t : Nat} :
    resource ∈ s.resources (s.layout.size + t) ↔ ∃ c port, s.layout.transfers[t]? = some c ∧
      s.outputPort? c.source c.output = some port ∧ port.type = .resource ∧
      resource = (0, if port.lifetime = .transient then .transient else .product, c.target,
        port.size) := by
  rw [resources, if_neg (by omega), Nat.add_sub_cancel_left]
  cases hc : s.layout.transfers[t]? with
  | none => simp
  | some c =>
    cases hport : s.outputPort? c.source c.output with
    | none => simp [hport]
    | some port => by_cases htype : port.type = .resource <;> simp [hport, htype]

theorem resources_sorted (s : Schedule) (i : Nat) :
    (s.resources i).Pairwise fun a b => a.1 < b.1 := by
  unfold resources
  split
  · refine List.pairwise_filterMap.mpr (List.pairwise_iff_getElem.mpr fun j k hj hk hjk => ?_)
    intro a ha b hb
    simp only [List.getElem_zipIdx, Option.ite_none_right_eq_some, Option.some.injEq] at ha hb
    obtain ⟨_, rfl⟩ := ha
    obtain ⟨_, rfl⟩ := hb
    change 0 + j < 0 + k
    omega
  · split
    · exact .nil
    · split
      · exact .nil
      · split
        · exact List.pairwise_singleton _ _
        · exact .nil

theorem requests_sorted (s : Schedule) : s.requests.Pairwise fun a b =>
    a.firstUse < b.firstUse ∨ a.firstUse = b.firstUse ∧ a.output < b.output := by
  change (s.order.zipIdx.flatMap fun pair =>
    (s.resources pair.1).map (s.requestOf pair.1 pair.2)).Pairwise _
  refine List.pairwise_flatMap.mpr ⟨fun pair _ => ?_, ?_⟩
  · exact List.pairwise_map.mpr ((s.resources_sorted pair.1).imp fun h => .inr ⟨rfl, h⟩)
  · refine List.pairwise_iff_getElem.mpr fun i j hi hj hij a ha b hb => .inl ?_
    obtain ⟨_, _, rfl⟩ := List.mem_map.mp ha
    obtain ⟨_, _, rfl⟩ := List.mem_map.mp hb
    rw [List.getElem_zipIdx, List.getElem_zipIdx]
    change 0 + i < 0 + j
    omega

def readers (s : Schedule) (i output : Nat) : List Nat :=
  (s.layout.uses.filter fun u => u.producer == i && u.output == output).map fun u =>
    s.order.idxOf u.reader

theorem Valid.mem_readers (hv : s.Valid) {output k : Nat} : k ∈ s.readers i output ↔
    ∃ u ∈ s.layout.uses, u.producer = i ∧ u.output = output ∧ s.order[k]? = some u.reader := by
  have hposition {u : Use} (hu : u ∈ s.layout.uses) :
      s.order.idxOf u.reader = k ↔ s.order[k]? = some u.reader := by
    have hmem := hv.mem_order.mpr (Layout.uses_lt hv.sound hu).2
    have hlt := List.idxOf_lt_length_of_mem hmem
    have hget : s.order[s.order.idxOf u.reader]? = some u.reader := by
      rw [List.getElem?_eq_getElem hlt, List.getElem_idxOf hlt]
    constructor
    · rintro rfl
      exact hget
    · exact hv.position_unique hget
  simp only [readers, List.mem_map, List.mem_filter, Bool.and_eq_true, beq_iff_eq]
  constructor
  · rintro ⟨u, ⟨hu, hproducer, houtput⟩, hk⟩
    exact ⟨u, hu, hproducer, houtput, (hposition hu).mp hk⟩
  · rintro ⟨u, hu, hproducer, houtput, hk⟩
    exact ⟨u, ⟨hu, hproducer, houtput⟩, (hposition hu).mpr hk⟩

/-- Readers of a request are the readers of its output. -/
theorem Valid.readAt_iff (hv : s.Valid) {position : Nat} (hi : i < s.layout.stepCount)
    (resource : Nat × Lifetime × Device × Nat) {k : Nat} :
    (s.plan config).ReadAt (s.requestOf i position resource) k ↔ k ∈ s.readers i resource.1 := by
  rw [hv.mem_readers]
  constructor
  · rintro ⟨reader, source, hk, hreads, horigin⟩
    obtain ⟨u, hu, rfl, hu'⟩ := hv.reads_iff.mp hreads
    obtain ⟨hstep, houtput⟩ := Prod.mk.inj (hu'.symm.trans horigin)
    obtain ⟨hproducer, hreader⟩ := Layout.uses_lt hv.sound hu
    exact ⟨u, hu, hv.stepOf_inj hproducer hi hstep, houtput, (hv.plan_order_getElem? hreader).mp hk⟩
  · rintro ⟨u, hu, rfl, houtput, hk⟩
    obtain ⟨source, horigin⟩ := hv.exists_source hu
    have hreader := (Layout.uses_lt hv.sound hu).2
    exact ⟨s.stepOf u.reader, source, (hv.plan_order_getElem? hreader).mpr hk,
      hv.reads_iff.mpr ⟨u, hu, rfl, horigin⟩, by rw [horigin, houtput]; rfl⟩

/-- Requests ask for exactly the time that their outputs are needed. -/
theorem Valid.request_spans (hv : s.Valid) (config : CompileConfig) {r : Request}
    (hr : r ∈ s.requests) : (s.plan config).Spans r ∧ r.firstUse ≤ r.lastUse := by
  obtain ⟨position, i, hposition, resource, _, rfl⟩ := mem_requests.mp hr
  have hi := hv.lt_of_order hposition
  have hlater {k : Nat} (hk : k ∈ s.readers i resource.1) : position < k := by
    obtain ⟨u, hu, rfl, _, hreader⟩ := hv.mem_readers.mp hk
    obtain ⟨j, hjk, hj⟩ := hv.use_position hu hreader
    obtain rfl := hv.position_unique hposition hj
    exact hjk
  have hset : {k | (s.plan config).ReadAt (s.requestOf i position resource) k} =
      {k | k ∈ s.readers i resource.1} := Set.ext fun k => hv.readAt_iff hi resource
  have hlast : IsGreatest {k | k = position ∨ k ∈ s.readers i resource.1}
      (s.requestOf i position resource).lastUse := isGreatest_foldl_max _ position
  refine ⟨⟨(hv.plan_order_getElem? hi).mpr hposition, ?_, ?_⟩, hlast.2 (.inl rfl)⟩
  · rintro ⟨k, hk⟩
    have hk := (hv.readAt_iff hi resource).mp hk
    rw [hset]
    refine ⟨?_, fun m hm => hlast.2 (.inr hm)⟩
    rcases hlast.1 with heq | hmem
    · have hle := hlast.2 (.inr hk)
      have hlt := hlater hk
      omega
    · exact hmem
  · intro hnone
    rcases hlast.1 with heq | hmem
    · exact heq
    · exact absurd ⟨_, (hv.readAt_iff hi resource).mpr hmem⟩ hnone

/-! ### Allocations -/

theorem mem_requests_of_allocation {a : Allocation}
    (ha : a ∈ (s.plan config).storage.allocations) : a.toRequest ∈ s.requests := by
  have hmem := List.mem_map_of_mem (f := Allocation.toRequest) ha
  rwa [plan, Storage.allocate_toRequest] at hmem

theorem exists_allocation (config : CompileConfig) {r : Request} (hr : r ∈ s.requests) :
    ∃ a ∈ (s.plan config).storage.allocations, a.toRequest = r := by
  rw [← List.mem_map, plan, Storage.allocate_toRequest]
  exact hr

theorem Valid.storage_packed (hv : s.Valid) (config : CompileConfig) :
    (s.plan config).storage.Packed :=
  Storage.allocate_packed config s.requests fun _ hr => (hv.request_spans config hr).2

theorem Valid.allocation_spans (hv : s.Valid) {a : Allocation}
    (ha : a ∈ (s.plan config).storage.allocations) :
    (s.plan config).Spans a.toRequest ∧ a.firstUse ≤ a.lastUse :=
  hv.request_spans config (mem_requests_of_allocation ha)

/-- A resource of a step is found among the allocations. -/
theorem Valid.exists_find? (hv : s.Valid) (config : CompileConfig) (hi : i < s.layout.stepCount)
    {resource : Nat × Lifetime × Device × Nat} (hmem : resource ∈ s.resources i) :
    ∃ a ∈ (s.plan config).storage.allocations, a.producer = s.stepOf i ∧ a.output = resource.1 ∧
      (s.plan config).storage.find? (s.stepOf i) resource.1 = some a := by
  obtain ⟨j, hj⟩ := hv.exists_position hi
  obtain ⟨b, hb, hrequest⟩ := exists_allocation config
    (mem_requests.mpr ⟨j, i, hj, resource, hmem, rfl⟩)
  have hfound : ((s.plan config).storage.find? (s.stepOf i) resource.1).isSome := by
    rw [Storage.find?, List.find?_isSome]
    refine ⟨b, hb, ?_⟩
    rw [Bool.and_eq_true, beq_iff_eq, beq_iff_eq, hrequest]
    exact ⟨rfl, rfl⟩
  obtain ⟨a, ha⟩ := Option.isSome_iff_exists.mp hfound
  have hmatch := List.find?_some ha
  rw [Bool.and_eq_true, beq_iff_eq, beq_iff_eq] at hmatch
  exact ⟨a, List.mem_of_find?_eq_some ha, hmatch.1, hmatch.2, ha⟩

theorem Valid.placed (hv : s.Valid) (config : CompileConfig) :
    (s.plan config).storage.Placed (s.plan config).order :=
  ⟨hv.plan_order_nodup, fun _ ha => (hv.allocation_spans ha).2,
    fun _ ha => (hv.allocation_spans ha).1.first⟩

/-- A walk that leaves out steps before a reader, but not the producer of what it reads, has that in
the slot of the allocation. -/
theorem Valid.walk_part (hv : s.Valid) {a : Allocation}
    (ha : a ∈ (s.plan config).storage.allocations) {slot : Nat}
    (hslot : a.binding.slot? = some slot) {k : Nat}
    (hread : (s.plan config).ReadAt a.toRequest k) {steps : List Step}
    (hsteps : steps.Sublist ((s.plan config).order.take k)) (hran : a.producer ∈ steps)
    (memory : Storage.Memory) :
    (s.plan config).storage.walk memory steps slot = some (a.producer, a.output) :=
  (hv.storage_packed config).walk_pass (hv.placed config) ha hslot hran hsteps
    (((hv.allocation_spans ha).1.last ⟨k, hread⟩).2 hread)

/-- A walk up to a reader has what it reads in the slot of the allocation. -/
theorem Valid.walk_reads (hv : s.Valid) {a : Allocation}
    (ha : a ∈ (s.plan config).storage.allocations) {slot : Nat}
    (hslot : a.binding.slot? = some slot) {k : Nat}
    (hread : (s.plan config).ReadAt a.toRequest k) (memory : Storage.Memory) :
    (s.plan config).storage.walk memory ((s.plan config).order.take k) slot =
      some (a.producer, a.output) := by
  have hfirst : a.firstUse < k := by
    obtain ⟨reader, source, hk, hreads, horigin⟩ := hread
    obtain ⟨u, hu, rfl, hu'⟩ := hv.reads_iff.mp hreads
    obtain ⟨hproducer, hreader⟩ := Layout.uses_lt hv.sound hu
    obtain ⟨j, hjk, hj⟩ := hv.use_position hu ((hv.plan_order_getElem? hreader).mp hk)
    have hplace := (hv.allocation_spans ha).1.first
    rw [(Prod.mk.inj (horigin.symm.trans hu')).1, hv.plan_order_getElem? hproducer] at hplace
    rwa [hv.position_unique hplace hj]
  refine hv.walk_part ha hslot hread (List.Sublist.refl _) ?_ memory
  apply List.mem_of_getElem? (i := a.firstUse)
  rw [List.getElem?_take_of_lt hfirst]
  exact (hv.allocation_spans ha).1.first

end Schedule

end FrameGraph
