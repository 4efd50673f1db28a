import FrameGraph.Proofs.Plan.Sources

/-! Linear orders of steps. A step depends on those that write what it reads. Steps can be
taken in any order in which none depends on itself or a later one; the order of a plan
is such an order, and holds with each step all on which it depends. -/

namespace FrameGraph

namespace Plan

variable {p : Plan} {steps order earlier later : List Step} {s a : Step}

/-- One step reads what another one writes. -/
def DependsOn (p : Plan) (b a : Step) : Prop := ∃ source, p.Reads b source ∧ source.origin.1 = a

/-- Distinct steps in an order in which none depends on itself or a later one. -/
structure IsLinear (p : Plan) (steps : List Step) : Prop where
  nodup : steps.Nodup
  ascending : steps.Pairwise fun a b => ¬p.DependsOn a b
  irreflexive : ∀ s ∈ steps, ¬p.DependsOn s s

theorem IsLinear.of_cons (h : p.IsLinear (s :: steps)) :
    s ∉ steps ∧ (∀ source, p.Reads s source → source.origin.1 ∉ s :: steps) ∧
      p.IsLinear steps := by
  obtain ⟨hfresh, hnodup⟩ := List.nodup_cons.mp h.nodup
  obtain ⟨hfirst, hascending⟩ := List.pairwise_cons.mp h.ascending
  refine ⟨hfresh, fun source hreads hmem => ?_, hnodup, hascending, fun a ha =>
    h.irreflexive a (List.mem_cons_of_mem s ha)⟩
  rcases List.mem_cons.mp hmem with hself | hlater
  · exact h.irreflexive s List.mem_cons_self ⟨source, hreads, hself⟩
  · exact hfirst _ hlater ⟨source, hreads, rfl⟩

theorem IsLinear.of_append (h : p.IsLinear (earlier ++ later)) :
    p.IsLinear earlier ∧ p.IsLinear later := by
  obtain ⟨hearlier, hlater, _⟩ := List.nodup_append.mp h.nodup
  obtain ⟨hfirst, hrest, _⟩ := List.pairwise_append.mp h.ascending
  exact ⟨⟨hearlier, hfirst, fun s hs => h.irreflexive s (List.mem_append_left _ hs)⟩,
    hlater, hrest, fun s hs => h.irreflexive s (List.mem_append_right _ hs)⟩

/-- The steps in another order, in which again none depends on a later one. -/
theorem IsLinear.reorder (h : p.IsLinear steps) (hperm : order.Perm steps)
    (hascending : order.Pairwise fun a b => ¬p.DependsOn a b) : p.IsLinear order :=
  ⟨hperm.nodup_iff.mpr h.nodup, hascending, fun s hs => h.irreflexive s (hperm.mem_iff.mp hs)⟩

/-- What a step depends on comes before it or not at all. -/
theorem IsLinear.mem_before (h : p.IsLinear (earlier ++ s :: later)) (hdepends : p.DependsOn s a)
    (hmem : a ∈ earlier ++ s :: later) : a ∈ earlier := by
  obtain ⟨source, hreads, rfl⟩ := hdepends
  exact (List.mem_append.mp hmem).resolve_right (h.of_append.2.of_cons.2.1 source hreads)

def before (p : Plan) (s : Step) : List Step := p.order.takeWhile (· ≠ s)

theorem before_eq (h : p.order = earlier ++ s :: later) (hfresh : s ∉ earlier) :
    p.before s = earlier := by
  have hother : ∀ a ∈ earlier, decide (a ≠ s) = true := fun a ha =>
    decide_eq_true fun heq => hfresh (heq ▸ ha)
  rw [before, h, List.takeWhile_append_of_pos hother]
  simp

theorem order_eq_before (p : Plan) (hs : s ∈ p.order) :
    ∃ after, p.order = p.before s ++ s :: after := by
  obtain ⟨earlier, after, horder, hfresh⟩ := List.eq_append_cons_of_mem hs
  exact ⟨after, by rw [before_eq horder hfresh, horder]⟩

theorem not_mem_before (p : Plan) (s : Step) : s ∉ p.before s := fun hs => by
  simpa using List.all_eq_true.mp List.all_takeWhile s hs

/-- An order in which each step comes after those on which it depends is linear. -/
theorem IsLinear.of_before (hnodup : steps.Nodup)
    (h : ∀ before s after, steps = before ++ s :: after →
      ∀ a, p.DependsOn s a → a ∈ before) : p.IsLinear steps := by
  have hlate {before after : List Step} {s a : Step} (heq : steps = before ++ s :: after)
      (ha : a ∈ s :: after) : ¬p.DependsOn s a := by
    intro hdepends
    subst heq
    exact (List.nodup_append.mp hnodup).2.2 a (h _ _ _ rfl a hdepends) a ha rfl
  refine ⟨hnodup, List.pairwise_iff_getElem.mpr fun i j hi hj hij => ?_, fun s hs => ?_⟩
  · have hsplit : steps = steps.take i ++ steps[i] :: steps.drop (i + 1) := by simp
    refine hlate hsplit ?_
    exact List.mem_cons_of_mem _ (List.mem_drop_iff_getElem.mpr ⟨j - (i + 1), by omega, by
      congr 1
      omega⟩)
  · obtain ⟨before, after, heq⟩ := List.append_of_mem hs
    exact hlate heq List.mem_cons_self

end Plan

namespace Schedule

variable {s : Schedule} {config : CompileConfig}

/-- Steps of the plan depend on what the layout uses. -/
theorem Valid.dependsOn_iff (hv : s.Valid) {a b : Step} :
    (s.plan config).DependsOn b a ↔ s.Uses a b := by
  constructor
  · rintro ⟨source, hreads, rfl⟩
    obtain ⟨u, hu, hreader, horigin⟩ := hv.reads_iff.mp hreads
    exact ⟨u, hu, by rw [horigin], hreader⟩
  · rintro ⟨u, hu, rfl, rfl⟩
    obtain ⟨source, horigin⟩ := hv.exists_source hu
    exact ⟨source, hv.reads_iff.mpr ⟨u, hu, rfl, horigin⟩, by rw [horigin]⟩

theorem Valid.mem_before (hv : s.Valid) {before after : List Step} {a b : Step}
    (heq : (s.plan config).order = before ++ b :: after)
    (hdepends : (s.plan config).DependsOn b a) : a ∈ before := by
  have hnodup : (s.plan config).order.Nodup := hv.plan_order_nodup
  have hprecedes : (s.plan config).Precedes a b :=
    hv.precedes_of_uses (hv.dependsOn_iff.mp hdepends)
  obtain ⟨j, k, hjk, hj, hk⟩ := hprecedes
  have hb : (s.plan config).order[before.length]? = some b := by simp [heq]
  obtain rfl : k = before.length := by
    obtain ⟨hlt, _⟩ := List.getElem?_eq_some_iff.mp hk
    exact (List.getElem?_inj hlt hnodup).mp (hk.trans hb.symm)
  rw [heq, List.getElem?_append_left hjk] at hj
  exact List.mem_of_getElem? hj

end Schedule

end FrameGraph
