import FrameGraph.Proofs.Graph.Routing
import FrameGraph.Proofs.Plan.Lifetimes

/-! The storage of a plan, seen from its graph. Resources that share a slot are on one
device and never live together, and each lives from its production to its last read.
So a walk over the plan in which every step reads its sources and then stores its
outputs finds under each source what the producer behind it stored. -/

namespace FrameGraph

namespace Graph

variable {β : Type} {g : Graph β} {s : Schedule} {config : CompileConfig}

/-- A source is a resource by the type of its node or of its transfer. -/
def IsResource (g : Graph β) (p : Plan) : Source → Prop
  | .output id output => ∃ type port, g.typeOf? id = some type ∧
      type.outputs[output]? = some port ∧ port.type = .resource
  | .transfer t => ∃ transfer, p.transfers[t]? = some transfer ∧ transfer.type = .resource

theorem Integral.exists_resource (hg : g.Integral) (hnet : s.layout.net = g.wiring) (hv : s.Valid)
    {source : Source} (hresource : g.IsResource (s.plan config) source) :
    ∃ i < s.layout.stepCount, ∃ resource ∈ s.resources i,
      source.origin = (s.stepOf i, resource.1) := by
  cases source with
  | output id index =>
    obtain ⟨type, port, htypeOf, hport, htype⟩ := hresource
    obtain ⟨n, hn, hntype⟩ := typeOf?_isSome htypeOf
    have hlt : g.cellIndex id < s.layout.size := by
      rw [Layout.size, hnet]
      exact Netlist.lt_of_getElem? (hg.cells_cellIndex hn hntype)
    have hnode := hg.nodeOf_cellIndex hnet hn
    have hport : s.outputPort? (g.cellIndex id) index = some port := by
      rw [← hg.outputPort?_nodeOf hnet hlt, hnode, outputPort?, htypeOf]
      exact hport
    refine ⟨g.cellIndex id, Nat.lt_of_lt_of_le hlt (Nat.le_add_right _ _), _,
      (Schedule.mem_resources_cell hlt).mpr ⟨_, port, hport, htype, rfl⟩, ?_⟩
    rw [Schedule.stepOf_cell hlt, hnode]
    rfl
  | transfer t =>
    obtain ⟨transfer, htransfer, htype⟩ := hresource
    obtain ⟨_, _, c, port, _, hc, hcopies⟩ := hv.transfer_copies htransfer
    refine ⟨s.layout.size + t, Nat.add_lt_add_left (List.getElem?_eq_some_iff.mp hc).1 _, _,
      Schedule.mem_resources_transfer.mpr
        ⟨c, port, hc, hcopies.hasPort, hcopies.type.symm.trans htype, rfl⟩, ?_⟩
    rw [Schedule.stepOf_transfer]
    rfl

/-- The storage of a plan is safe. Steps read what the connections make them read, lifetimes reach
exactly to the last read, residents of one slot are on one device and live at disjoint times, and a
walk over the plan finds every resource that a step reads as its producer stored it, unless the
application supplies it. -/
theorem Reachable.storage_safe [Behavior β] (hg : Reachable g) {p : Plan}
    (h : g.planFor config = .ok p) :
    (∀ reader source, p.Reads reader source ↔ g.Reads p reader source) ∧
    (∀ a ∈ p.storage.allocations, p.Spans a.toRequest) ∧
    (∀ (i j : Nat) (a b : Allocation) (slot : Nat), p.storage.allocations[i]? = some a →
      p.storage.allocations[j]? = some b → i ≠ j → a.binding.slot? = some slot →
      b.binding.slot? = some slot → a.overlaps b.toRequest = false ∧ a.device = b.device) ∧
    ∀ (k : Nat) (reader : Step) (source : Source), p.order[k]? = some reader →
      p.Reads reader source → g.IsResource p source →
      ∃ a, p.storage.find? source.origin.1 source.origin.2 = some a ∧
        (a.lifetime = .external ∨ ∃ slot, a.binding.slot? = some slot ∧
          ∀ memory, p.storage.walk memory (p.order.take k) slot = some source.origin) := by
  have hi := hg.integral
  obtain ⟨s, rfl, hnet, hv⟩ := hi.exists_schedule h
  have hpacked := hv.storage_packed config
  refine ⟨fun _ _ => hi.reads_iff hnet hv, ?_, ?_, ?_⟩
  · intro a ha
    exact (hv.request_spans config (Schedule.mem_requests_of_allocation ha)).1
  · intro i j a b slot ha hb hne haslot hbslot
    obtain ⟨hdisjoint, hdevice⟩ := hpacked.disjoint ha hb hne haslot hbslot
    refine ⟨?_, hdevice⟩
    rw [Request.overlaps, Bool.and_eq_false_iff, decide_eq_false_iff_not, decide_eq_false_iff_not]
    omega
  · intro k reader source hk hreads hresource
    obtain ⟨i, hlt, resource, hmem, horigin⟩ := hi.exists_resource hnet hv hresource
    obtain ⟨a, ha, hproducer, houtput, hfind⟩ := hv.exists_find? config hlt hmem
    have hsource : source.origin = (a.producer, a.output) := by
      rw [horigin, hproducer, houtput]
    rw [horigin]
    refine ⟨a, hfind, ?_⟩
    cases hslot : a.binding.slot? with
    | none => exact .inl (hpacked.bound a ha hslot)
    | some slot =>
      refine .inr ⟨slot, rfl, fun memory => ?_⟩
      rw [hv.walk_reads ha hslot ⟨reader, source, hk, hreads, hsource⟩, hproducer, houtput]

/-- In the chain the last pass takes over the slot of the transfer, which is read before. -/
theorem chain_storage_safe : ∃ plan a b, chain.planFor {} = .ok plan ∧
    plan.storage.allocations[1]? = some a ∧ plan.storage.allocations[3]? = some b ∧
    a.binding.slot? = some 1 ∧ b.binding.slot? = some 1 ∧ a.overlaps b.toRequest = false ∧
    plan.Spans b.toRequest := by
  have hslots : (chain.planFor {}).map (fun plan => plan.storage.allocations.map fun a =>
      a.binding.slot?) = .ok [some 0, some 1, some 2, some 1] := by decide +kernel
  cases h : chain.planFor {} with
  | error e =>
    rw [h] at hslots
    cases hslots
  | ok plan =>
    rw [h] at hslots
    have hslots := Except.ok.inj hslots
    obtain ⟨a, ha, haslot⟩ := Option.map_eq_some_iff.mp
      ((List.getElem?_map).symm.trans (congrArg (fun l : List (Option Nat) => l[1]?) hslots))
    obtain ⟨b, hb, hbslot⟩ := Option.map_eq_some_iff.mp
      ((List.getElem?_map).symm.trans (congrArg (fun l : List (Option Nat) => l[3]?) hslots))
    obtain ⟨_, hspans, hdisjoint, _⟩ := chain_reachable.storage_safe h
    exact ⟨plan, a, b, rfl, ha, hb, haslot, hbslot,
      (hdisjoint 1 3 a b 1 ha hb (by decide) haslot hbslot).1, hspans b (List.mem_of_getElem? hb)⟩

end Graph

end FrameGraph
