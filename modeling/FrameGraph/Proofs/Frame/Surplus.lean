import FrameGraph.Proofs.Frame.Accompaniment
import FrameGraph.Proofs.Frame.Accounting

/-! A pass for the further loop alone. It runs combinational nodes again, whose outputs come back
the same before anything reads them, and nodes that are gated, if it finds their gates open. Where
it finds them closed nothing is reported and nothing changes, so that it can be dropped from the
comparison of frames with and without the loop. -/

namespace FrameGraph

variable {β : Type} [Behavior β]

namespace Progress

open FrameGraph.Graph

variable {plan : Plan} {pass : Pass} {p q p' q' : Progress β} {id : NodeId} {m n : Node β}
  {l : LoopId} {U : NodeId → Prop} {limit : Nat}

/-! ### Reports -/

/-- In a pass over steps that name it once a live node takes the turn that is due if it runs. -/
theorem walk_turn {steps : List Step} (hsteps : plan.IsLinear steps)
    (h : p.walk plan pass steps = (q, none)) (hid : .node id ∈ steps)
    (hn : p.graph.node? id = some n) :
    q.turns id = p.turns id ++ if q.graph.runs plan pass id then [p.timing pass n] else [] := by
  obtain ⟨before, after, rfl⟩ := List.append_of_mem hid
  obtain ⟨mid, hbefore, hrest⟩ := walk_append_iff.mp h
  obtain ⟨next, hstep, hafter⟩ := walk_cons hrest
  have hnodup := hsteps.nodup
  rw [List.nodup_middle, List.nodup_cons, List.mem_append, not_or] at hnodup
  have hsettles := walk_settles hsteps.of_append.1 hbefore
  have hlater := walk_settles hsteps.of_append.2 hrest
  have hlive : mid.graph.node? id = some n := Eq.trans (hsettles.others _ hnodup.1.1) hn
  have hruns : q.graph.runs plan pass id = mid.graph.runs plan pass id :=
    runs_congr hlater.same (fun source hsource =>
      hlater.others _ (hsteps.of_append.2.of_cons.2.1 source hsource)) pass
  have hcontext : (mid.context plan pass id n).node = id := rfl
  have htiming : (mid.context plan pass id n).timing = p.timing pass n :=
    timing_congr hsettles.same hsettles.delta pass n
  rw [walk_turns_other hafter hnodup.1.2, hstep.turns, walk_turns_other hbefore hnodup.1.1, hruns]
  congr 1
  simp only [recorded?, hlive]
  split <;> simp [FrameGraph.turns, Event.turn?, hcontext, htiming]

/-- Two frames in progress have reported the same of a node; of combinational nodes only whether
they were executed. -/
structure Beside (id : NodeId) (p q : Progress β) : Prop where
  executed : id ∈ q.report.executed ↔ id ∈ p.report.executed
  skipped : id ∈ q.report.skipped ↔ id ∈ p.report.skipped
  ascending : p.report.invocations.Ascending
  ascending' : q.report.invocations.Ascending
  followed : p.graph.isCombinational id = false →
    q.report.invocations.count id = p.report.invocations.count id ∧ q.turns id = p.turns id

theorem Beside.walk (h : Beside id p q) (hsteps : plan.IsLinear plan.order)
    (hid : .node id ∈ plan.order) (hp : p.walk plan pass plan.order = (p', none))
    (hq : q.walk plan pass plan.order = (q', none)) (hm : p.graph.node? id = some m)
    (hn : q.graph.node? id = some n)
    (hruns : q'.graph.runs plan pass id = p'.graph.runs plan pass id)
    (htiming : q.timing pass n = p.timing pass m) : Beside id p' q' := by
  have hreport := walk_report hsteps hp
  have hreport' := walk_report hsteps hq
  obtain ⟨hascending, hcount⟩ := walk_count hsteps hid h.ascending hp
  obtain ⟨hascending', hcount'⟩ := walk_count hsteps hid h.ascending' hq
  refine ⟨?_, ?_, hascending, hascending', fun hsequential => ⟨?_, ?_⟩⟩
  · rw [hreport, hreport', FrameReport.mem_after.1, FrameReport.mem_after.1, h.executed, hruns]
  · rw [hreport, hreport', FrameReport.mem_after.2, FrameReport.mem_after.2, h.skipped, hruns]
  all_goals
    rw [(walk_samePass hp).isCombinational] at hsequential
    obtain ⟨hbefore, hturns⟩ := h.followed hsequential
  · rw [hcount, hcount', hbefore, runs_atTurn hsteps hp hid, runs_atTurn hsteps hq hid, hruns]
  · rw [walk_turn hsteps hp hid hm, walk_turn hsteps hq hid hn, hturns, hruns, htiming]

theorem Beside.extra (h : Beside id p q) (hsteps : plan.IsLinear plan.order)
    (hid : .node id ∈ plan.order) (hq : q.walk plan .catchUp plan.order = (q', none))
    (hn : q.graph.node? id = some n)
    (hruns : p.graph.isCombinational id = false → q'.graph.runs plan .catchUp id = false) :
    Beside id p q' := by
  have hreport := walk_report hsteps hq
  obtain ⟨hascending', hcount⟩ := walk_count hsteps hid h.ascending' hq
  refine ⟨?_, ?_, h.ascending, hascending', fun hsequential => ?_⟩
  · rw [hreport, FrameReport.mem_after.1, h.executed]
    simp
  · rw [hreport, FrameReport.mem_after.2, h.skipped]
    simp
  · obtain ⟨hbefore, hturns⟩ := h.followed hsequential
    rw [hcount, runs_atTurn hsteps hq hid, walk_turn hsteps hq hid hn, hruns hsequential]
    simpa using ⟨hbefore, hturns⟩

/-! ### Passes -/

/-- In the catch-up pass that begins so the gates of the set are closed when they are asked for. -/
def Quiet (plan : Plan) (U : NodeId → Prop) (start : Progress β) : Prop :=
  ∀ id, U id → start.graph.isCombinational id = false →
    ∀ source, plan.gateSource? id = some source →
      (start.atTurn plan .catchUp (.node id)).graph.readGate source = false

/-- A pass for the further loop alone runs only combinational nodes where the gates are closed. -/
theorem Quiet.runs (hquiet : q.Quiet plan U) (hspares : q.graph.Spares l)
    (hidle : ∀ other ≠ l, q.graph.loops.isTriggered other = false)
    (hsteps : plan.IsLinear plan.order) (hq : q.walk plan .catchUp plan.order = (q', none))
    (hU : U id) (hid : .node id ∈ plan.order) (hsequential : q.graph.isCombinational id = false) :
    q'.graph.runs plan .catchUp id = false := by
  obtain ⟨_, _, hbefore, _⟩ := walk_atTurn hq hid
  have hsame := walk_samePass hbefore
  rw [← runs_atTurn hsteps hq hid, runs_eq, hsame.isCombinational, hsequential, Bool.false_or]
  cases hgate : plan.gateSource? id with
  | some source => exact hquiet id hU hsequential source hgate
  | none =>
    dsimp only
    cases hn : (q.atTurn plan .catchUp (.node id)).graph.node? id with
    | none => rfl
    | some n =>
      have hdriven : n.subscriptions.any q.graph.loops.isTriggered = false := by
        rw [List.any_eq_false]
        intro other hother
        rw [hidle other fun heq => hspares.of_samePass hsame id n hn (heq ▸ hother)]
        exact Bool.false_ne_true
      rw [Option.any_some, isDriven, hsame.loops, hdriven]
      rfl

theorem turned_work {type : NodeType β} {work : Work β} (htype : p.graph.type? n.type = some type)
    (hwork : n.work = some work) (hpure : work.IsPure l type.outputs n.params)
    (hfilled : n.outputs.length = type.outputs.length) :
    (p.turned plan pass id n).1.work = some work := by
  unfold turned
  split
  · have hnext := hpure.next (p.context plan pass id n) n.outputs rfl hfilled
    simp only [Node.act, hwork, htype, hnext]
  · exact hwork

theorem turned_idle (hwork : n.work = none) : (p.turned plan pass id n).1 = n := by
  unfold turned
  split
  · simp only [Node.act, hwork]
  · rfl

/-- A pass for the further loop alone keeps what the two graphs have in common. -/
theorem walk_extra {g : Graph β} (hacc : Accompanied l U g q.graph)
    (hQ : q.graph.RunBy plan) (hq : q.walk plan .catchUp plan.order = (q', none))
    (hruns : ∀ id, U id → .node id ∈ plan.order → g.isCombinational id = false →
      q'.graph.runs plan .catchUp id = false) : Accompanied l U g q'.graph := by
  have hsettles := walk_settles hQ.isLinear hq
  have hpeers := hacc.peers.samePass (.refl g) hsettles.same
  refine hacc.of_effects .refl (effects_of_walk hq) hpeers fun id hU => ?_
  by_cases hkept : q'.graph.node? id = q.graph.node? id
  · rw [HoldsAlike, SameWork, hkept]
    exact hacc.nodes id hU
  -- a node that the pass changes is combinational, and its work is pure
  have hid : .node id ∈ plan.order := by_contra fun hid => hkept (hsettles.others _ hid)
  obtain ⟨n, hn⟩ := Option.isSome_iff_exists.mp (hQ.node_mem.mp hid)
  have hnode := (hsettles.at_mem _ hid n hn).2
  have hcombinational : g.isCombinational id = true := by
    by_contra hsequential
    refine hkept ?_
    rw [hnode, turned_skipped (hruns id hU hid (Bool.eq_false_iff.mpr hsequential)), hn]
  obtain ⟨work, hwork'⟩ : ∃ work, n.work = some work := by
    rw [← Option.isSome_iff_exists, Option.isSome_iff_ne_none]
    exact fun hnone => hkept (by rw [hnode, turned_idle hnone, hn])
  obtain ⟨m, hm⟩ := Option.isSome_iff_exists.mp
    ((hacc.peers.node?_isSome id).symm.trans (by rw [hn]; rfl))
  have hwork : m.work = some work := (hacc.work hU hm hn).symm.trans hwork'
  obtain ⟨type, hknown, htype, hparams, hpure, _, hfilled⟩ :=
    hacc.combinational hcombinational hm hn hwork
  refine .inr ⟨hcombinational, work, by rw [hm, Option.bind_some, hwork], ?_⟩
  rw [hnode, Option.bind_some]
  exact turned_work (by rw [hpeers.type?, htype, hknown]) hwork' (hparams ▸ hpure) hfilled

end Progress

end FrameGraph
