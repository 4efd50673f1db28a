import FrameGraph.Proofs.Frame.Attendance
import FrameGraph.Proofs.Graph.Supply

/-! A pass in another order. The equations that the end of a pass meets do not mention the order in
which its steps were taken, and they determine that end. So every order that keeps each
step after those on which it depends leads to the same outputs, behavior states and carried
values, and the same nodes run. The steps of a wave depend on none of each other; to
take them in whatever order, or each when its worker is free, is such an order. -/

namespace FrameGraph

variable {β : Type}

namespace Graph

/-- The steps of a plan in an order that keeps each of them after those on which it depends. -/
structure IsOrder (g : Graph β) (p : Plan) (order : List Step) : Prop where
  perm : order.Perm p.order
  mem_before : ∀ before s after, order = before ++ s :: after →
    ∀ a, g.StepDepends p a s → a ∈ before

variable {g : Graph β} {p : Plan}

/-- What a step of the installed plan depends on, seen from the plan and from the graph. -/
theorem Reachable.dependsOn_iff [Behavior β] (hg : Reachable g) (hplan : g.plan = some p)
    (hcurrent : g.isOutdated = false) {a b : Step} :
    p.DependsOn b a ↔ g.StepDepends p a b := by
  obtain ⟨s, rfl, hnet, hv⟩ :=
    hg.integral.exists_schedule (hg.planIsFresh p hplan hcurrent).1
  exact exists_congr fun source => and_congr_left fun _ => hg.integral.reads_iff hnet hv

theorem IsOrder.isLinear (hp : g.RunBy p)
    (hdepends : ∀ a b, p.DependsOn b a → g.StepDepends p a b) {order : List Step}
    (ho : g.IsOrder p order) : p.IsLinear order :=
  .of_before (ho.perm.nodup_iff.mpr hp.nodup) fun before s after heq a ha =>
    ho.mem_before before s after heq a (hdepends a s ha)

/-- The waves of a plan may each be taken in any order. -/
theorem IsOrder.of_waves (hp : g.RunBy p) (hs : g.IsSchedule p)
    (hdepends : ∀ a b, p.DependsOn b a ↔ g.StepDepends p a b) {waves : List (List Step)}
    (hwaves : List.Forall₂ List.Perm waves p.waves) : g.IsOrder p waves.flatten := by
  have hperm : waves.flatten.Perm p.order := .flatten_congr hwaves
  have hlinear : p.IsLinear waves.flatten := by
    refine hp.isLinear.reorder hperm (List.pairwise_flatten.mpr ⟨fun wave hwave => ?_, ?_⟩)
    · obtain ⟨k, hk, rfl⟩ := List.getElem_of_mem hwave
      have hk' : k < p.waves.length := hwaves.length_eq ▸ hk
      have hmem {s : Step} (h : s ∈ waves[k]) : s ∈ p.waves[k] :=
        (hwaves.get hk hk').mem_iff.mp h
      refine List.Pairwise.imp_of_mem (R := fun _ _ => True)
        (fun ha hb _ hab => ?_) (List.pairwise_of_forall fun _ _ => trivial)
      exact hs.independent _ (List.getElem_mem hk') _ (hmem hb) _ (hmem ha)
        (.single ((hdepends _ _).mp hab))
    · have hacross := (List.pairwise_flatten.mp hp.isLinear.ascending).2
      rw [List.pairwise_iff_getElem] at hacross ⊢
      intro i j hi hj hij a ha b hb
      have hi' : i < p.waves.length := hwaves.length_eq ▸ hi
      have hj' : j < p.waves.length := hwaves.length_eq ▸ hj
      exact hacross i j hi' hj' hij a ((hwaves.get hi hi').mem_iff.mp ha) b
        ((hwaves.get hj hj').mem_iff.mp hb)
  refine ⟨hperm, fun before s after heq a ha => ?_⟩
  have hdep := (hdepends a s).mpr ha
  rw [heq] at hlinear
  refine hlinear.mem_before hdep (heq ▸ hperm.mem_iff.mpr ?_)
  obtain ⟨earlier, later, horder⟩ :=
    List.append_of_mem (hperm.mem_iff.mp (heq ▸ List.mem_append_right before List.mem_cons_self))
  rw [horder]
  exact List.mem_append_left _ (hp.mem_before _ _ _ horder a hdep)

/-- A pass does not depend on the order in which it takes its steps. If it completes in the order of
the plan, then it completes in every order that keeps each step after those on which it
depends, any order within each wave among them, and ends with the same graph: outputs,
behavior states and carried values. It counts the same invocations and transfers, and the
same nodes are executed and skipped. -/
theorem Reachable.walk_reorder [Behavior β] (hg : Reachable g) (hplan : g.plan = some p)
    (hcurrent : g.isOutdated = false) {pass : Pass} {start last : Progress β}
    (hwalk : start.walk p pass p.order = (last, none)) :
    (∀ order, g.IsOrder p order → ∃ other, start.walk p pass order = (other, none) ∧
      other.graph = last.graph ∧ last.report.Alike other.report ∧
      other.report.transfers = last.report.transfers) ∧
    ∀ waves, List.Forall₂ List.Perm waves p.waves → g.IsOrder p waves.flatten := by
  have hp := hg.runBy hplan hcurrent
  have hdepends (a b : Step) := hg.dependsOn_iff hplan hcurrent (a := a) (b := b)
  refine ⟨fun order horder => ?_, fun waves hwaves => ?_⟩
  · have hlinear := horder.isLinear hp fun a b => (hdepends a b).mp
    have hsettles := Progress.walk_settles hp.isLinear hwalk
    obtain ⟨other, hother, hgraph⟩ := Progress.Settles.walk hlinear
      (hsettles.of_mem_iff fun s => horder.perm.mem_iff)
    refine ⟨other, hother, hgraph, ?_, ?_⟩
    all_goals
      rw [Progress.walk_report hlinear hother, Progress.walk_report hp.isLinear hwalk, hgraph]
    · exact (FrameReport.Alike.refl _).after (horder.perm.filterMap _)
    · exact congrArg (start.report.transfers + ·) (horder.perm.countP_eq _)
  · obtain ⟨s, rfl, hnet, hv⟩ :=
      hg.integral.exists_schedule (hg.planIsFresh p hplan hcurrent).1
    exact .of_waves hp (hg.integral.isSchedule hnet hv) hdepends hwaves

/-- In the relay the bridge may be taken before the pass that shares its wave. -/
theorem relay_reordered : ∃ plan last other, relay.plan = some plan ∧
    plan.order = [.node ⟨0⟩, .node ⟨3⟩, .node ⟨1⟩, .node ⟨2⟩] ∧
    (relay.opening (some 0.25)).walk plan .main plan.order = (last, none) ∧
    (relay.opening (some 0.25)).walk plan .main [.node ⟨3⟩, .node ⟨0⟩, .node ⟨1⟩, .node ⟨2⟩] =
      (other, none) ∧ other.graph = last.graph ∧ last.report.Alike other.report := by
  obtain ⟨report, hok, _⟩ := relay_ok
  obtain ⟨plan, hplan, hcurrent, hrun⟩ := execute_ok hok
  rw [hrun] at hok
  obtain ⟨last, _, hwalk, _⟩ := runFrame_ok hok
  have hwaves : relay.plan.map Plan.waves =
      some [[.node ⟨0⟩, .node ⟨3⟩], [.node ⟨1⟩], [.node ⟨2⟩]] := by decide +kernel
  rw [hplan] at hwaves
  have hwaves : plan.waves = [[.node ⟨0⟩, .node ⟨3⟩], [.node ⟨1⟩], [.node ⟨2⟩]] :=
    Option.some.inj hwaves
  obtain ⟨hreorder, horders⟩ := relay_reachable.walk_reorder hplan hcurrent hwalk
  have horder := horders [[.node ⟨3⟩, .node ⟨0⟩], [.node ⟨1⟩], [.node ⟨2⟩]] (by
    rw [hwaves]
    exact .cons (.swap _ _ _) (.cons (.refl _) (.cons (.refl _) .nil)))
  obtain ⟨other, hother, hgraph, halike, _⟩ := hreorder _ horder
  exact ⟨plan, last, other, hplan, by rw [Plan.order, hwaves]; rfl, hwalk, hother, hgraph, halike⟩

end Graph

end FrameGraph
