import FrameGraph.Proofs.Graph.Order
import FrameGraph.Proofs.Plan.Settings

/-! How much storage the plan of a graph takes. On each device the pool has as few slots as
the lifetimes of its residents allow. The settings decide about storage only, and a
larger pool never takes more slots. -/

namespace FrameGraph

/-- A plan apart from its storage, and the requests that the storage grants. -/
def Plan.unbound (p : Plan) : Plan × List Request :=
  ({ p with storage := {} }, p.storage.allocations.map Allocation.toRequest)

theorem Schedule.unbound_plan (s : Schedule) (c d : CompileConfig) :
    (s.plan c).unbound = (s.plan d).unbound := by
  simp only [Plan.unbound, plan, Storage.allocate_toRequest]

/-- What one setting lets share, a more generous one lets share too. -/
theorem Request.isPooled_mono {c d : CompileConfig} (hon : d.aliasing = true)
    (hmin : c.aliasing = true → d.minAliasSize ≤ c.minAliasSize) {r : Request}
    (h : r.isPooled c = true) : r.isPooled d = true := by
  obtain ⟨htransient, hc, hsize⟩ := Storage.isPooled_iff.mp h
  exact Storage.isPooled_iff.mpr ⟨htransient, hon, (hmin hc).trans hsize⟩

namespace Graph

variable {β : Type} {g : Graph β} {config : CompileConfig}

/-- The shared slots on a device are as many as the aliased allocations on it that are live at the
busiest position of the plan, and no assignment that keeps these apart has fewer slots. -/
theorem Reachable.pool_least [Behavior β] (hg : Reachable g) {p : Plan}
    (h : g.planFor config = .ok p) (d : Device) :
    (p.storage.poolSlots d).card =
      (Finset.range p.order.length).sup (fun k => (p.storage.crowd d k).card) ∧
    IsLeast {m | ∃ slot : Nat → Nat, p.storage.Separates d slot ∧
      ((p.storage.pool d).image slot).card = m} (p.storage.poolSlots d).card := by
  obtain ⟨s, rfl, _, hv⟩ := hg.integral.exists_schedule h
  have hordered := s.requests_inOrder
  exact ⟨Storage.allocate_card_poolSlots config hordered d fun _ hr => hv.lastUse_lt config hr,
    Storage.allocate_isLeast config hordered d⟩

/-- Two slots on the second device: for what comes over from the first, which the last pass takes
over, and for the pass that reads it. -/
theorem chain_pool_least : ∃ plan, chain.planFor {} = .ok plan ∧
    (plan.storage.poolSlots ⟨1⟩).card = 2 ∧ (plan.storage.pool ⟨1⟩).card = 3 ∧
    IsLeast {m | ∃ slot : Nat → Nat, plan.storage.Separates ⟨1⟩ slot ∧
      ((plan.storage.pool ⟨1⟩).image slot).card = m} 2 := by
  have hplan : (chain.planFor {}).map (fun plan =>
      ((plan.storage.poolSlots ⟨1⟩).card, (plan.storage.pool ⟨1⟩).card)) = .ok (2, 3) := by
    decide +kernel
  obtain ⟨plan, h, hcards⟩ := exists_of_map_eq_ok hplan
  obtain ⟨hslots, hpool⟩ := Prod.mk.inj hcards
  have hleast := (chain_reachable.pool_least h ⟨1⟩).2
  rw [hslots] at hleast
  exact ⟨plan, h, hslots, hpool, hleast⟩

/-- A plan is laid out from a schedule of the netlist, also where the graph is not integral. -/
theorem exists_schedule_of_planFor {p : Plan} (h : g.planFor config = .ok p) :
    ∃ net s, g.netlist = .ok net ∧ net.schedule config.defaultDevice = .ok s ∧
      s.plan config = p := by
  rw [planFor] at h
  cases hnet : g.netlist with
  | error e =>
    rw [hnet] at h
    cases h
  | ok net =>
    rw [hnet] at h
    have hcompile : net.compile config = .ok p := h
    obtain ⟨s, hs, hplan⟩ := exists_of_map_eq_ok hcompile
    exact ⟨net, s, rfl, hs, hplan⟩

/-- Settings of one device give plans that differ in storage only, and fail alike. With sharing on
there are no more slots than with sharing off or for larger transients only; they take no more bytes
than with sharing off, and are as many exactly when no transient shares its slot. -/
theorem planFor_settings (g : Graph β) {c d : CompileConfig}
    (hdevice : c.defaultDevice = d.defaultDevice) :
    (g.planFor c).map Plan.unbound = (g.planFor d).map Plan.unbound ∧
    ∀ p q, g.planFor c = .ok p → g.planFor d = .ok q →
      (d.aliasing = true → (c.aliasing = true → d.minAliasSize ≤ c.minAliasSize) →
        q.storage.slots.length ≤ p.storage.slots.length) ∧
      (c.aliasing = false → d.aliasing = true → q.storage.size ≤ p.storage.size ∧
        (q.storage.slots.length = p.storage.slots.length ↔ q.storage.aliasedCount = 0)) := by
  constructor
  · rw [planFor, planFor]
    cases g.netlist with
    | error e => rfl
    | ok net =>
      change (net.compile c).map Plan.unbound = (net.compile d).map Plan.unbound
      rw [Netlist.compile, Netlist.compile, hdevice]
      cases net.schedule d.defaultDevice with
      | error e => rfl
      | ok s => exact congrArg Except.ok (s.unbound_plan c d)
  · intro p q hp hq
    obtain ⟨net, s, hnet, hs, rfl⟩ := exists_schedule_of_planFor hp
    obtain ⟨net', s', hnet', hs', rfl⟩ := exists_schedule_of_planFor hq
    obtain rfl := Except.ok.inj (hnet.symm.trans hnet')
    rw [hdevice] at hs
    obtain rfl := Except.ok.inj (hs.symm.trans hs')
    exact ⟨fun hon hmin => Storage.allocate_slots_le s.requests_inOrder fun _ _ =>
        Request.isPooled_mono hon hmin,
      fun hoff _ => ⟨Storage.allocate_size_le hoff d s.requests,
        Storage.allocate_slots_eq_iff hoff d s.requests⟩⟩

/-- Sharing saves one slot of the chain. -/
theorem chain_settings : ∃ p q, chain.planFor { aliasing := false } = .ok p ∧
    chain.planFor {} = .ok q ∧ p.unbound = q.unbound ∧
    q.storage.slots.length ≤ p.storage.slots.length ∧ q.storage.size ≤ p.storage.size ∧
    p.storage.slots.length = 4 ∧ q.storage.slots.length = 3 ∧ q.storage.aliasedCount ≠ 0 := by
  have hoff : (chain.planFor { aliasing := false }).map (fun p => p.storage.slots.length) =
      .ok 4 := by decide +kernel
  have hon : (chain.planFor {}).map (fun q => q.storage.slots.length) = .ok 3 := by decide +kernel
  obtain ⟨p, hp, hpslots⟩ := exists_of_map_eq_ok hoff
  obtain ⟨q, hq, hqslots⟩ := exists_of_map_eq_ok hon
  obtain ⟨hunbound, hstorage⟩ :=
    planFor_settings chain (c := { aliasing := false }) (d := {}) rfl
  obtain ⟨hslots, hbytes⟩ := hstorage p q hp hq
  obtain ⟨hsize, hshared⟩ := hbytes rfl rfl
  rw [hp, hq] at hunbound
  refine ⟨p, q, hp, hq, Except.ok.inj hunbound, hslots rfl (by simp), hsize, hpslots, hqslots,
    fun hzero => ?_⟩
  have hequal := hshared.mpr hzero
  omega

end Graph

end FrameGraph
