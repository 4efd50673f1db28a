import FrameGraph.Proofs.Frame.Passes
import FrameGraph.Proofs.Graph.Freshness
import FrameGraph.Proofs.Graph.Order
import FrameGraph.Proofs.Plan.Lifetimes

/-! Storage over the passes of a frame. Slots are shared by the one walk that a plan
describes, while a frame walks it several times and leaves out steps each time. Within a
pass this does no harm: what is left out writes nothing, so a resource stays in its slot
until its last reader had its turn. Between passes it does. A resource whose producer
sits out a pass lies in its slot beyond its lifetime, and a resident that began when it had
ended, in the pass before, took its place. -/

namespace FrameGraph

namespace Plan

/-- After some steps, the slot of a source holds what the producer behind it stored. -/
def Holds (p : Plan) (ran : List Step) (source : Source) : Prop :=
  ∀ a slot, p.storage.find? source.origin.1 source.origin.2 = some a →
    a.binding.slot? = some slot →
    p.storage.walk (fun _ => none) ran slot = some source.origin

/-- A source has its slot to itself. -/
def Alone (p : Plan) (source : Source) : Prop :=
  ∀ a slot, p.storage.find? source.origin.1 source.origin.2 = some a →
    a.binding.slot? = some slot →
    ∀ b ∈ p.storage.allocations, b.binding.slot? = some slot → b = a

/-- Every step that reads a transient finds it in its slot, if the producer ran before. -/
def KeepsTransients (p : Plan) (ran : List Step) : Prop :=
  ∀ (k : Nat) (reader : Step) (source : Source) (a : Allocation), ran[k]? = some reader →
    p.Reads reader source → p.storage.find? source.origin.1 source.origin.2 = some a →
    a.lifetime = .transient → source.origin.1 ∈ ran.take k → p.Holds (ran.take k) source

end Plan

theorem sublist_take_of_sublist {α : Type} {pass order : List α} (hnodup : order.Nodup)
    (hpass : pass.Sublist order) {k m : Nat} {x : α} (hk : pass[k]? = some x)
    (hm : order[m]? = some x) : (pass.take k).Sublist (order.take m) := by
  obtain ⟨hlt, rfl⟩ := List.getElem?_eq_some_iff.mp hk
  have hsplit : pass = pass.take k ++ pass[k] :: pass.drop (k + 1) := by simp
  rw [hsplit, List.append_sublist_iff] at hpass
  obtain ⟨before, after, rfl, hbefore, hafter⟩ := hpass
  have hle : before.length ≤ m := by
    by_contra hlt
    rw [List.getElem?_append_left (by omega)] at hm
    exact (List.nodup_append.mp hnodup).2.2 _ (List.mem_of_getElem? hm) _
      (hafter.subset List.mem_cons_self) rfl
  rw [List.take_append, List.take_of_length_le hle]
  exact hbefore.trans (List.sublist_append_left _ _)

namespace Schedule

variable {s : Schedule} {config : CompileConfig} {earlier : List (List Step)} {pass : List Step}
  {k : Nat} {reader : Step} {source : Source}

/-- A read within a pass finds what was stored in the same pass, and what was stored in an earlier
one where no other resource takes the slot. -/
theorem Valid.holds (hv : s.Valid) (hpass : pass.Sublist (s.plan config).order)
    (hk : pass[k]? = some reader) (hreads : (s.plan config).Reads reader source)
    (hran : source.origin.1 ∈ pass.take k ∨
      source.origin.1 ∈ earlier.flatten ∧ (s.plan config).Alone source) :
    (s.plan config).Holds (earlier.flatten ++ pass.take k) source := by
  intro a slot hfind hslot
  have ha := List.mem_of_find?_eq_some hfind
  have horigin : source.origin = (a.producer, a.output) := by
    have hmatch := List.find?_some hfind
    rw [Bool.and_eq_true, beq_iff_eq, beq_iff_eq] at hmatch
    exact Prod.ext hmatch.1.symm hmatch.2.symm
  rw [horigin] at hran ⊢
  rcases hran with hhere | ⟨hearlier, halone⟩
  · obtain ⟨m, hm⟩ := List.mem_iff_getElem?.mp (hpass.subset (List.mem_of_getElem? hk))
    have hpart := sublist_take_of_sublist hv.plan_order_nodup hpass hk hm
    rw [Storage.walk_append]
    exact hv.walk_part ha hslot ⟨reader, source, hm, hreads, horigin⟩ hpart hhere _
  · exact (hv.storage_packed config).walk_alone (hv.placed config) ha hslot
      (List.mem_append_left _ hearlier) (halone a slot hfind hslot)

end Schedule

namespace Graph

/-- A frame without a failure runs parts of the plan, pass by pass, and every step of a pass finds
what it reads as its producer stored it, when the producer ran in that pass, or in an earlier
one and shares its slot with no other. -/
theorem Reachable.passes_hold {β : Type} [Behavior β] {g : Graph β} (hg : Reachable g)
    {plan : Plan} (hplan : g.plan = some plan) {override : Option Float} {watch : Stopwatch}
    {limit : Nat} {report : FrameReport}
    (hok : (g.execute override watch limit).answer = .ok report) :
    ∃ passes : List (List Step), passes.length = report.catchUpPasses + 1 ∧
      (∀ pass ∈ passes, pass.Sublist plan.order) ∧
      (g.execute override watch limit).journal.toList.filterMap Event.step? = passes.flatten ∧
      ∀ earlier pass later, passes = earlier ++ pass :: later →
        ∀ (k : Nat) (reader : Step) (source : Source), pass[k]? = some reader →
          plan.Reads reader source →
          (source.origin.1 ∈ pass.take k ∨
            source.origin.1 ∈ earlier.flatten ∧ plan.Alone source) →
          plan.Holds (earlier.flatten ++ pass.take k) source := by
  obtain ⟨installed, hinstalled, hcurrent, hrun⟩ := execute_ok hok
  obtain rfl : plan = installed := Option.some.inj (hplan.symm.trans hinstalled)
  rw [hrun] at hok ⊢
  obtain ⟨passes, hlength, hpasses, htrace⟩ := runFrame_trace hok
  refine ⟨passes, hlength, hpasses, htrace, ?_⟩
  rintro earlier pass later rfl k reader source hk hreads hran
  obtain ⟨s, rfl, _, hv⟩ :=
    hg.integral.exists_schedule (hg.planIsFresh plan hplan hcurrent).1
  exact hv.holds (hpasses pass (by simp)) hk hreads hran

/-- What a frame of a quarter of a second runs in the relay: the main pass, and one catch-up pass
for the bridge and the pass that the loop drives. -/
theorem relay_trace : (relay.execute (some 0.25)).journal.toList.filterMap Event.step? =
    [.node ⟨0⟩, .node ⟨3⟩, .node ⟨1⟩, .node ⟨2⟩, .node ⟨3⟩, .node ⟨1⟩] := by decide +kernel

theorem relay_plan : relay.plan = some (relay.plan.getD {}) := by
  have hplan : relay.plan.isSome := by decide +kernel
  obtain ⟨plan, hplan⟩ := Option.isSome_iff_exists.mp hplan
  rw [hplan]
  rfl

theorem relay_reads : (relay.plan.getD {}).Reads (.node ⟨1⟩) (.output ⟨0⟩ 0) := by
  have hsource : (relay.plan.getD {}).inputSource? ⟨1⟩ 0 = some (.output ⟨0⟩ 0) := by
    decide +kernel
  exact .input hsource

/-- At its turn in the main pass the second pass of the relay finds what the first one stored. -/
theorem relay_holds :
    (relay.plan.getD {}).Holds [.node ⟨0⟩, .node ⟨3⟩] (.output ⟨0⟩ 0) := by
  obtain ⟨report, hok, hcount⟩ := relay_ok
  obtain ⟨passes, hlength, hpasses, htrace, hholds⟩ :=
    relay_reachable.passes_hold relay_plan hok
  rw [hcount] at hlength
  obtain ⟨first, second, rfl⟩ := List.length_eq_two.mp hlength
  have hjoin : first ++ second =
      [.node ⟨0⟩, .node ⟨3⟩, .node ⟨1⟩, .node ⟨2⟩, .node ⟨3⟩, .node ⟨1⟩] := by
    simpa using htrace.symm.trans relay_trace
  -- a node runs once in a pass, so the catch-up pass does not reach back to the first run
  have hlong : 2 < first.length := by
    by_contra hshort
    have hdrop : (first ++ second).drop 2 = second.drop (2 - first.length) := by
      rw [List.drop_append, List.drop_eq_nil_of_le (by omega), List.nil_append]
    have hnodup : (relay.plan.getD {}).order.Nodup := by decide +kernel
    have htwice := (hnodup.sublist (hpasses second (by simp))).sublist
      (List.drop_sublist (2 - first.length) second)
    rw [← hdrop, hjoin] at htwice
    exact absurd htwice (by decide)
  have hreader : (first ++ second)[2]? = first[2]? := List.getElem?_append_left hlong
  have hbefore : (first ++ second).take 2 = first.take 2 :=
    List.take_append_of_le_length (by omega)
  rw [hjoin] at hreader hbefore
  have hheld := hholds [] first [second] rfl 2 (.node ⟨1⟩) (.output ⟨0⟩ 0) hreader.symm relay_reads
    (.inl (hbefore ▸ by decide))
  rwa [← hbefore] at hheld

/-- In the catch-up pass it does not: what the third pass stored has taken the place. -/
theorem relay_overwrites : ∃ plan report, relay.plan = some plan ∧
    (relay.execute (some 0.25)).answer = .ok report ∧
    ¬plan.KeepsTransients
      ((relay.execute (some 0.25)).journal.toList.filterMap Event.step?) := by
  obtain ⟨report, hok, _⟩ := relay_ok
  refine ⟨_, report, relay_plan, hok, fun hkeeps => ?_⟩
  rw [relay_trace] at hkeeps
  have hplace : ((relay.plan.getD {}).storage.find? (.node ⟨0⟩) 0).map
      (fun a => (a.lifetime, a.binding)) = some (.transient, .aliased 0) := by decide +kernel
  obtain ⟨a, hfind, hbinding⟩ := Option.map_eq_some_iff.mp hplace
  obtain ⟨hlifetime, hslot⟩ := Prod.mk.inj hbinding
  have hheld := hkeeps 5 (.node ⟨1⟩) (.output ⟨0⟩ 0) a rfl relay_reads hfind hlifetime
    (by decide) a 0 hfind (by rw [hslot]; rfl)
  have hlast : (relay.plan.getD {}).storage.walk (fun _ => none)
      [.node ⟨0⟩, .node ⟨3⟩, .node ⟨1⟩, .node ⟨2⟩, .node ⟨3⟩] 0 = some (.node ⟨2⟩, 0) := by
    decide +kernel
  exact absurd (hlast.symm.trans hheld) (by decide)

end Graph

end FrameGraph
