import FrameGraph.Proofs.Frame.Attendance

/-! Walks that a failure ends. Such a walk completes the steps before the node that fails, invokes
the node, and takes no step after it. What the invocation wrote stays, but it is recorded and
not counted: up to it the report counts what the journal records, node by node. -/

namespace FrameGraph

variable {β : Type}

namespace Progress

open FrameGraph.Graph

variable [Behavior β] {plan : Plan} {pass : Pass} {p q mid next : Progress β} {failure : Failure}
  {steps before after : List Step}

/-! ### The step that fails -/

/-- What a step that fails does to a frame in progress. -/
inductive Failed (plan : Plan) (pass : Pass) (p : Progress β) : Failure → Progress β → Prop
  | invoked (id : NodeId) (node : Node β) (error : NodeError) (next : Progress β)
      (runs : p.graph.runs plan pass id = true) (live : p.graph.node? id = some node)
      (failed : p.invoke plan pass id node = (next, some error)) :
      Failed plan pass p ⟨id, error⟩ next

theorem failed_of_step {s : Step} (h : p.step plan pass s = (q, some failure)) :
    s = .node failure.node ∧ Failed plan pass p failure q := by
  cases s with
  | transfer t => cases h
  | node id =>
    simp only [step] at h
    split at h
    · next hruns =>
      split at h
      · cases h
      · next node hlive =>
        split at h
        · cases h
        · next next error hfailed =>
          obtain ⟨rfl, hfailure⟩ := Prod.mk.inj h
          obtain rfl := Option.some.inj hfailure
          exact ⟨rfl, .invoked id node error _ hruns hlive hfailed⟩
    · cases h

theorem Failed.samePass (h : Failed plan pass p failure next) : SamePass p.graph next.graph := by
  cases h with
  | invoked id node error next runs live failed =>
    have hinvoke := p.invoke_samePass plan pass id node
    rw [failed] at hinvoke
    exact hinvoke

theorem Failed.report (h : Failed plan pass p failure next) : next.report = p.report := by
  cases h with
  | invoked id node error next runs live failed =>
    have hinvoke := p.invoke_report plan pass id node
    rw [failed] at hinvoke
    exact hinvoke

theorem Failed.trace (h : Failed plan pass p failure next) :
    next.trace = p.trace ++ [.node failure.node] := by
  cases h with
  | invoked id node error next runs live failed =>
    obtain ⟨remarks, hjournal, _⟩ := invoke_recorded plan pass live
    rw [failed] at hjournal
    rw [Progress.trace, hjournal, List.filterMap_append, List.filterMap_cons,
      Event.filterMap_note Event.step? fun _ => rfl]
    rfl

theorem Failed.others (h : Failed plan pass p failure next) {other : Step}
    (hother : other ≠ .node failure.node) : SameAt p.graph next.graph other := by
  cases h with
  | invoked id node error next runs live failed =>
    have hinvoke := p.invoke_others plan pass node hother
    rw [failed] at hinvoke
    exact hinvoke

/-! ### Walks -/

/-- A walk is broken off at a node: it leads over the steps before it to where the node fails. -/
structure BrokenOff (plan : Plan) (pass : Pass) (p : Progress β) (before after : List Step)
    (failure : Failure) (mid q : Progress β) : Prop where
  completed : p.walk plan pass before = (mid, none)
  failed : ∃ next, Failed plan pass mid failure next ∧ q = next.abandon pass after

/-- A walk that fails is broken off at one of its steps. -/
theorem walk_brokenOff (h : p.walk plan pass steps = (q, some failure)) :
    ∃ before after mid, steps = before ++ .node failure.node :: after ∧
      BrokenOff plan pass p before after failure mid q := by
  induction steps generalizing p with
  | nil => cases h
  | cons s rest ih =>
    simp only [walk] at h
    split at h
    · next next hstep =>
      obtain ⟨before, after, mid, rfl, hbroken⟩ := ih h
      exact ⟨s :: before, after, mid, rfl, walk_cons_iff.mpr ⟨next, hstep, hbroken.completed⟩,
        hbroken.failed⟩
    · next next found hstep =>
      obtain ⟨rfl, hfound⟩ := Prod.mk.inj h
      obtain rfl := Option.some.inj hfound
      obtain ⟨rfl, hfailed⟩ := failed_of_step hstep
      exact ⟨[], rest, p, rfl, rfl, next, hfailed, rfl⟩

namespace BrokenOff

variable (h : BrokenOff plan pass p before after failure mid q)

include h

theorem samePass : SamePass p.graph q.graph := by
  obtain ⟨next, hfailed, rfl⟩ := h.failed
  rw [abandon_graph]
  exact (walk_samePass h.completed).trans hfailed.samePass

theorem report : q.report = (mid.abandon pass after).report := by
  obtain ⟨next, hfailed, rfl⟩ := h.failed
  cases pass <;> simp only [abandon, hfailed.report]

theorem catchUpPasses : q.report.catchUpPasses = p.report.catchUpPasses := by
  rw [h.report, ← walk_catchUpPasses h.completed]
  cases pass <;> rfl

theorem trace : q.trace = mid.trace ++ [.node failure.node] := by
  obtain ⟨next, hfailed, rfl⟩ := h.failed
  rw [← hfailed.trace]
  cases pass <;> rfl

theorem others (hsteps : plan.IsLinear before) {other : Step} (hbefore : other ∉ before)
    (hother : other ≠ .node failure.node) : SameAt p.graph q.graph other := by
  obtain ⟨next, hfailed, rfl⟩ := h.failed
  rw [abandon_graph]
  exact ((walk_settles hsteps h.completed).others other hbefore).trans (hfailed.others hother)

end BrokenOff

/-! ### Counts and records -/

/-- The report counts the invocations of every node that the journal records. -/
structure Tallied (p : Progress β) : Prop where
  ascending : p.report.invocations.Ascending
  count : ∀ id, p.trace.count (.node id) = p.report.invocations.count id

theorem Stepped.tallied {s : Step} (h : Stepped plan pass p s q)
    (hlive : ∀ id, s = .node id → (p.graph.node? id).isSome) (hp : p.Tallied) : q.Tallied := by
  have htrace : q.trace =
      p.trace ++ (p.recorded? plan pass s).toList.filterMap Event.step? :=
    h.filterMap_journal _ (fun _ => rfl) fun _ _ _ => rfl
  have hreport := h.report
  cases s with
  | transfer t =>
    have hsame : q.report.invocations = p.report.invocations := by
      rw [hreport]
      rfl
    refine ⟨hsame ▸ hp.ascending, fun id => ?_⟩
    rw [htrace, hsame, ← hp.count id]
    simp [recorded?, Event.step?]
  | node own =>
    obtain ⟨n, hn⟩ := Option.isSome_iff_exists.mp (hlive own rfl)
    cases hruns : p.graph.runs plan pass own with
    | false =>
      have hsame : q.report.invocations = p.report.invocations := by
        rw [hreport]
        simp [FrameReport.after, Step.node?, hruns]
      refine ⟨hsame ▸ hp.ascending, fun id => ?_⟩
      rw [htrace, hsame, ← hp.count id]
      simp [recorded?, hruns]
    | true =>
      have hbumped : q.report.invocations = p.report.invocations.bump own := by
        rw [hreport]
        simp [FrameReport.after, Step.node?, hruns]
      refine ⟨hbumped ▸ hp.ascending.bump own, fun id => ?_⟩
      rw [htrace, hbumped, hp.ascending.count_bump, ← hp.count id]
      simp [recorded?, hruns, hn, Event.step?, context, List.count_singleton]

theorem walk_tallied (h : p.walk plan pass steps = (q, none))
    (hlive : ∀ id, .node id ∈ steps → (p.graph.node? id).isSome) (hp : p.Tallied) : q.Tallied := by
  induction steps generalizing p with
  | nil =>
    obtain ⟨rfl, _⟩ := Prod.mk.inj h
    exact hp
  | cons s rest ih =>
    obtain ⟨next, hstep, hrest⟩ := walk_cons h
    refine ih hrest (fun id hid => ?_) (hstep.tallied (fun id hs => hlive id (by simp [hs])) hp)
    rw [hstep.samePass.node?_isSome]
    exact hlive id (List.mem_cons_of_mem s hid)

/-- Of the node that failed there is one record more. -/
theorem BrokenOff.count (h : BrokenOff plan pass p before after failure mid q)
    (hlive : ∀ id, .node id ∈ before → (p.graph.node? id).isSome) (hp : p.Tallied) (id : NodeId) :
    q.trace.count (.node id) =
      q.report.invocations.count id + if failure.node = id then 1 else 0 := by
  have hsame : q.report.invocations = mid.report.invocations := by
    rw [h.report]
    cases pass <;> rfl
  rw [h.trace, List.count_append, (walk_tallied h.completed hlive hp).count, hsame]
  simp [List.count_singleton]

end Progress

end FrameGraph
