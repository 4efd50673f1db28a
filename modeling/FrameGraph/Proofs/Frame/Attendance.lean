import FrameGraph.Proofs.Frame.Settled

/-! Who runs in a pass. Whether a node runs is the same at its turn and at the end of the
pass, so the report of a pass is read off the state in which the pass ends: which nodes ran, which
were passed over, and how often each was counted. The order of the steps shows in the order
of the lists and in nothing else. -/

namespace FrameGraph

variable {β : Type}

/-! ### Tallies -/

namespace Tally

def Ascending (t : Tally) : Prop := t.counts.Pairwise fun a b => a.1.index < b.1.index

theorem mem_raise {id : NodeId} {counts : List (NodeId × Nat)} {entry : NodeId × Nat}
    (h : entry ∈ raise id counts) : entry.1 = id ∨ ∃ old ∈ counts, old.1 = entry.1 := by
  induction counts with
  | nil => exact .inl (by rw [List.mem_singleton.mp h])
  | cons first rest ih =>
    obtain ⟨k, n⟩ := first
    simp only [raise] at h
    split at h
    · rcases List.mem_cons.mp h with rfl | h
      · exact .inr ⟨(k, n), List.mem_cons_self, rfl⟩
      · exact .inr ⟨entry, List.mem_cons_of_mem _ h, rfl⟩
    · split at h
      · rcases List.mem_cons.mp h with rfl | h
        · exact .inl rfl
        · exact .inr ⟨entry, h, rfl⟩
      · rcases List.mem_cons.mp h with rfl | h
        · exact .inr ⟨(k, n), List.mem_cons_self, rfl⟩
        · obtain hid | ⟨old, hold, heq⟩ := ih h
          · exact .inl hid
          · exact .inr ⟨old, List.mem_cons_of_mem _ hold, heq⟩

theorem Ascending.bump {t : Tally} (h : t.Ascending) (id : NodeId) : (t.bump id).Ascending := by
  obtain ⟨counts⟩ := t
  simp only [Ascending, Tally.bump] at h ⊢
  induction counts with
  | nil => exact List.pairwise_singleton _ _
  | cons first rest ih =>
    obtain ⟨k, n⟩ := first
    obtain ⟨hfirst, hrest⟩ := List.pairwise_cons.mp h
    simp only [raise]
    split
    · exact List.pairwise_cons.mpr ⟨hfirst, hrest⟩
    · split
      · next hlt =>
        refine List.pairwise_cons.mpr ⟨fun entry hentry => ?_, h⟩
        rcases List.mem_cons.mp hentry with rfl | hentry
        · exact hlt
        · exact hlt.trans (hfirst entry hentry)
      · next hne hle =>
        refine List.pairwise_cons.mpr ⟨fun entry hentry => ?_, ih hrest⟩
        obtain hid | ⟨old, hold, heq⟩ := mem_raise hentry
        · have hindex : id.index ≠ k.index := fun heq => hne (congrArg NodeId.mk heq)
          change k.index < entry.1.index
          rw [hid]
          omega
        · rw [← heq]
          exact hfirst old hold

theorem lookup_cons_eq_ite (k id : NodeId) (n : Nat) (rest : List (NodeId × Nat)) :
    ((k, n) :: rest).lookup id = if id = k then some n else rest.lookup id := by
  rw [List.lookup_cons]
  split <;> simp_all

theorem Ascending.count_bump {t : Tally} (h : t.Ascending) (id other : NodeId) :
    (t.bump id).count other = t.count other + if id = other then 1 else 0 := by
  obtain ⟨counts⟩ := t
  simp only [Ascending, Tally.bump, count] at h ⊢
  induction counts with
  | nil =>
    by_cases heq : other = id
    · simp [raise, heq]
    · simp [raise, lookup_cons_eq_ite, heq, Ne.symm heq]
  | cons first rest ih =>
    obtain ⟨k, n⟩ := first
    obtain ⟨hfirst, hrest⟩ := List.pairwise_cons.mp h
    have habsent (hlt : id.index < k.index) : rest.lookup id = none := by
      refine List.lookup_eq_none_iff.mpr fun entry hentry => ?_
      have hgt := hlt.trans (hfirst entry hentry)
      exact bne_iff_ne.mpr fun heq => absurd (congrArg NodeId.index heq) (Nat.ne_of_lt hgt)
    have ih := ih hrest
    simp only [raise]
    split
    · next hk =>
      by_cases heq : other = k
      · simp [hk, heq]
      · simp [lookup_cons_eq_ite, hk, heq, Ne.symm heq]
    · next hk =>
      split
      · next hlt =>
        by_cases heq : other = id
        · simp [lookup_cons_eq_ite, hk, heq, habsent hlt]
        · simp [lookup_cons_eq_ite, heq, Ne.symm heq]
      · by_cases heq : other = k
        · simp [hk, heq]
        · simpa only [lookup_cons_eq_ite, heq, if_false] using ih

theorem Ascending.count_foldl {t : Tally} (h : t.Ascending) (ids : List NodeId) (other : NodeId) :
    (ids.foldl Tally.bump t).Ascending ∧
      (ids.foldl Tally.bump t).count other = t.count other + ids.count other := by
  induction ids generalizing t with
  | nil => exact ⟨h, rfl⟩
  | cons id rest ih =>
    obtain ⟨hkept, hcount⟩ := ih (h.bump id)
    refine ⟨hkept, ?_⟩
    rw [List.foldl_cons, hcount, h.count_bump, List.count_cons]
    by_cases heq : id = other <;> simp [heq]
    omega

theorem raise_comm (a b : NodeId) (counts : List (NodeId × Nat)) :
    raise a (raise b counts) = raise b (raise a counts) := by
  by_cases hab : a = b
  · rw [hab]
  have hindex : a.index ≠ b.index := fun heq => hab (congrArg NodeId.mk heq)
  induction counts with
  | nil => grind [raise]
  | cons first rest ih => grind [raise]

theorem foldl_bump_perm {ids others : List NodeId} (h : ids.Perm others) (t : Tally) :
    ids.foldl bump t = others.foldl bump t :=
  h.foldl_eq' (fun a _ b _ t => congrArg Tally.mk (raise_comm b a t.counts)) t

end Tally

/-! ### Reports -/

namespace FrameReport

theorem nodup_nodes {steps : List Step} (h : steps.Nodup) : (steps.filterMap Step.node?).Nodup := by
  refine h.filterMap fun a b id ha hb => ?_
  cases a <;> cases b <;> simp_all [Step.node?]

theorem mem_nodes {steps : List Step} {id : NodeId} :
    id ∈ steps.filterMap Step.node? ↔ .node id ∈ steps := by
  rw [List.mem_filterMap]
  constructor
  · rintro ⟨s, hs, hid⟩
    cases s with
    | node other => exact Option.some.inj hid ▸ hs
    | transfer t => cases hid
  · exact fun h => ⟨_, h, rfl⟩

/-- The report after a pass over some steps, when it is known which nodes run. -/
def after (r : FrameReport) (pass : Pass) (runs : NodeId → Bool) (steps : List Step) :
    FrameReport :=
  let ran := (steps.filterMap Step.node?).filter runs
  { r with
    executed := if pass = .main then r.executed ++ ran else r.executed
    skipped :=
      if pass = .main then r.skipped ++ (steps.filterMap Step.node?).filter (fun id => !runs id)
      else r.skipped
    invocations := ran.foldl Tally.bump r.invocations
    transfers := r.transfers + steps.countP fun s => s.node?.isNone }

structure Alike (a b : FrameReport) : Prop where
  frame : b.frame = a.frame
  delta : b.delta = a.delta
  executed : b.executed.Perm a.executed
  skipped : b.skipped.Perm a.skipped
  invocations : b.invocations = a.invocations
  catchUpPasses : b.catchUpPasses = a.catchUpPasses

variable {r s : FrameReport} {pass : Pass} {runs others : NodeId → Bool} {steps order : List Step}

theorem after_cons (r : FrameReport) (pass : Pass) (runs : NodeId → Bool) (s : Step)
    (rest : List Step) : (r.after pass runs [s]).after pass runs rest =
      r.after pass runs (s :: rest) := by
  have hsplit : s :: rest = [s] ++ rest := rfl
  rw [hsplit]
  simp only [after, List.countP_append, List.filterMap_append, List.filter_append,
    List.foldl_append, Nat.add_assoc]
  cases pass <;> simp

theorem after_congr (h : ∀ id, .node id ∈ steps → others id = runs id) :
    r.after pass others steps = r.after pass runs steps := by
  have hnodes : ∀ id ∈ steps.filterMap Step.node?, others id = runs id := by
    intro id hid
    obtain ⟨s, hs, hnode⟩ := List.mem_filterMap.mp hid
    cases s with
    | node other =>
      obtain rfl := Option.some.inj hnode
      exact h _ hs
    | transfer t => cases hnode
  have hran := List.filter_congr hnodes
  have hpassed := List.filter_congr fun id hid => congrArg (!·) (hnodes id hid)
  simp only [after, hran, hpassed]

/-- Only the main pass lists nodes, each as executed or as skipped. -/
theorem mem_after {id : NodeId} :
    (id ∈ (r.after pass runs steps).executed ↔
      id ∈ r.executed ∨ pass = .main ∧ .node id ∈ steps ∧ runs id = true) ∧
    (id ∈ (r.after pass runs steps).skipped ↔
      id ∈ r.skipped ∨ pass = .main ∧ .node id ∈ steps ∧ runs id = false) := by
  cases pass <;> simp [after, mem_nodes, -List.mem_filterMap]

theorem Alike.refl (r : FrameReport) : r.Alike r := ⟨rfl, rfl, .refl _, .refl _, rfl, rfl⟩

theorem Alike.after (h : r.Alike s)
    (hnodes : (order.filterMap Step.node?).Perm (steps.filterMap Step.node?)) :
    (r.after pass runs steps).Alike (s.after pass runs order) := by
  have hran := hnodes.filter runs
  refine ⟨h.frame, h.delta, ?_, ?_, ?_, h.catchUpPasses⟩
  · cases pass
    · exact h.executed.append hran
    · exact h.executed
  · cases pass
    · exact h.skipped.append (hnodes.filter _)
    · exact h.skipped
  · simp only [FrameReport.after, h.invocations]
    exact Tally.foldl_bump_perm hran _

end FrameReport

namespace Progress

open FrameGraph.Graph

variable [Behavior β] {plan : Plan} {pass : Pass} {p q : Progress β} {steps : List Step}

theorem Stepped.report {s : Step} (h : Stepped plan pass p s q) :
    q.report = p.report.after pass (p.graph.runs plan pass) [s] := by
  cases h with
  | transferred t =>
    cases pass <;> simp [transfer, FrameReport.after, Step.node?, List.filterMap_cons]
  | skipped id closed =>
    cases pass <;> simp [skip, FrameReport.after, Step.node?, closed]
  | vacant id runs gone =>
    cases pass <;> simp [finish, FrameReport.after, Step.node?, runs]
  | invoked id node next runs live done =>
    have hreport : next.report = p.report := by
      simpa [done] using p.invoke_report plan pass id node
    cases pass <;> simp [finish, hreport, FrameReport.after, Step.node?, runs]

/-- The report of a pass counts the nodes that would run in its last state. -/
theorem walk_report (hsteps : plan.IsLinear steps) (h : p.walk plan pass steps = (q, none)) :
    q.report = p.report.after pass (q.graph.runs plan pass) steps := by
  induction steps generalizing p with
  | nil =>
    obtain ⟨rfl, _⟩ := Prod.mk.inj h
    cases pass <;> simp [FrameReport.after]
  | cons s rest ih =>
    have hsettles := walk_settles hsteps h
    obtain ⟨_, hreads, hrest⟩ := hsteps.of_cons
    obtain ⟨next, hstep, hwalk⟩ := walk_cons_iff.mp h
    have hfirst : p.report.after pass (p.graph.runs plan pass) [s] =
        p.report.after pass (q.graph.runs plan pass) [s] := by
      refine (FrameReport.after_congr fun id hid => ?_).symm
      obtain rfl := List.mem_singleton.mp hid
      exact runs_congr hsettles.same (fun source hsource =>
        hsettles.others _ (hreads source hsource)) pass
    rw [ih hrest hwalk, (stepped_of_step hstep).report, hfirst, FrameReport.after_cons]

/-- What ran in a pass are the transfers and the live nodes that would run in its last state. -/
theorem walk_ran (hsteps : plan.IsLinear steps) (h : p.walk plan pass steps = (q, none)) :
    q.trace = p.trace ++ steps.filter fun
      | .transfer _ => true
      | .node id => (q.graph.node? id).isSome && q.graph.runs plan pass id := by
  induction steps generalizing p with
  | nil =>
    obtain ⟨rfl, _⟩ := Prod.mk.inj h
    exact (List.append_nil _).symm
  | cons s rest ih =>
    have hsettles := walk_settles hsteps h
    obtain ⟨_, hreads, hrest⟩ := hsteps.of_cons
    obtain ⟨next, hstep, hwalk⟩ := walk_cons_iff.mp h
    have hjournal := (stepped_of_step hstep).filterMap_journal Event.step? (fun _ => rfl)
      fun _ _ _ => rfl
    rw [ih hrest hwalk, Progress.trace, hjournal, ← Progress.trace, List.append_assoc]
    refine congrArg (p.trace ++ ·) ?_
    cases s with
    | transfer t => rfl
    | node id =>
      have hruns : q.graph.runs plan pass id = p.graph.runs plan pass id :=
        runs_congr hsettles.same (fun source hsource =>
          hsettles.others _ (hreads source hsource)) pass
      have hlive := hsettles.same.node?_isSome id
      simp only [recorded?, List.filter_cons, hruns, hlive]
      cases p.graph.runs plan pass id <;> cases p.graph.node? id <;> simp [Event.step?, context]

/-! ### Turns within a pass -/

theorem walk_append_iff {first rest : List Step} :
    p.walk plan pass (first ++ rest) = (q, none) ↔
      ∃ mid, p.walk plan pass first = (mid, none) ∧ mid.walk plan pass rest = (q, none) := by
  induction first generalizing p with
  | nil => simp [walk]
  | cons s first ih =>
    simp only [List.cons_append, walk_cons_iff, ih]
    constructor
    · rintro ⟨next, hstep, mid, hfirst, hrest⟩
      exact ⟨mid, ⟨next, hstep, hfirst⟩, hrest⟩
    · rintro ⟨mid, ⟨next, hstep, hfirst⟩, hrest⟩
      exact ⟨next, hstep, mid, hfirst, hrest⟩

/-- The frame when it is a step's turn in a pass that begins so. -/
def atTurn (p : Progress β) (plan : Plan) (pass : Pass) (s : Step) : Progress β :=
  (p.walk plan pass (plan.before s)).1

theorem walk_atTurn_of_prefix {rest : List Step} (horder : plan.order = steps ++ rest)
    (h : p.walk plan pass steps = (q, none)) {s : Step} (hs : s ∈ steps) :
    ∃ after, steps = plan.before s ++ s :: after ∧
      p.walk plan pass (plan.before s) = (p.atTurn plan pass s, none) ∧
      (p.atTurn plan pass s).walk plan pass (s :: after) = (q, none) := by
  obtain ⟨earlier, after, rfl, hfresh⟩ := List.eq_append_cons_of_mem hs
  have hbefore : plan.before s = earlier :=
    Plan.before_eq (horder.trans (List.append_assoc _ _ _)) hfresh
  obtain ⟨mid, hearlier, hlater⟩ := walk_append_iff.mp h
  have hmid : p.atTurn plan pass s = mid := by rw [atTurn, hbefore, hearlier]
  exact ⟨after, by rw [hbefore], hbefore ▸ hmid ▸ hearlier, hmid ▸ hlater⟩

theorem walk_atTurn (h : p.walk plan pass plan.order = (q, none)) {s : Step}
    (hs : s ∈ plan.order) : ∃ after, plan.order = plan.before s ++ s :: after ∧
      p.walk plan pass (plan.before s) = (p.atTurn plan pass s, none) ∧
      (p.atTurn plan pass s).walk plan pass (s :: after) = (q, none) :=
  walk_atTurn_of_prefix (List.append_nil _).symm h hs

/-- A node among the first steps of a plan runs at its turn exactly if it would run after them. -/
theorem runs_atTurn_of_prefix {rest : List Step} (horder : plan.order = steps ++ rest)
    (hsteps : plan.IsLinear steps) (h : p.walk plan pass steps = (q, none)) {id : NodeId}
    (hid : .node id ∈ steps) :
    (p.atTurn plan pass (.node id)).graph.runs plan pass id = q.graph.runs plan pass id := by
  obtain ⟨after, hsplit, _, hrest⟩ := walk_atTurn_of_prefix horder h hid
  rw [hsplit] at hsteps
  have hlater := hsteps.of_append.2
  have hsettles := walk_settles hlater hrest
  exact (runs_congr hsettles.same (fun source hsource =>
    hsettles.others _ (hlater.of_cons.2.1 source hsource)) pass).symm

theorem runs_atTurn (hsteps : plan.IsLinear plan.order)
    (h : p.walk plan pass plan.order = (q, none)) {id : NodeId} (hid : .node id ∈ plan.order) :
    (p.atTurn plan pass (.node id)).graph.runs plan pass id = q.graph.runs plan pass id :=
  runs_atTurn_of_prefix (List.append_nil _).symm hsteps h hid

end Progress

end FrameGraph
