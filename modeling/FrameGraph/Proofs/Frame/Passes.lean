import FrameGraph.Proofs.Graph.Shape

/-! The passes of a frame that no failure ends. A step of such a pass transfers a value,
passes over a node or invokes it; `Stepped` says all that it can do. A pass takes the steps
of the plan in order and leaves loops, subscriptions and structure as they are, so that
only the updates between the passes decide which loops are triggered in one. What ran
can be read off the journal: it is cut into passes, each in the order of the plan. -/

namespace FrameGraph

variable {β : Type}

namespace Event

def step? : Event → Option Step
  | invoked context => some (.node context.node)
  | transferred number => some (.transfer number)
  | _ => none

theorem filterMap_note {γ : Type} (f : Event → Option γ) (hf : ∀ remark, f (.note remark) = none)
    (remarks : List Note) : (remarks.map Event.note).filterMap f = [] := by
  rw [List.filterMap_map]
  exact List.filterMap_eq_nil_iff.mpr fun remark _ => hf remark

end Event

/-- A node without what an invocation changes. -/
def Node.seated (n : Node β) : Node β := { n with outputs := [], work := none }

/-- What an invocation in a context makes of a node, and the error if it fails. -/
def Node.act [Behavior β] (type : Option (NodeType β)) (c : Context) (n : Node β) :
    Node β × Option NodeError :=
  match n.work, type with
  | some work, some type =>
    let result := (Behavior.act work c).run type.outputs n.outputs
    ({ n with work := some result.next, outputs := result.outputs }, result.failure)
  | _, _ => (n, none)

namespace Graph

/-- `h` differs from `g` only in what a pass changes: outputs and work of nodes, and carried values.
-/
structure SamePass (g h : Graph β) : Prop where
  rest : { h with slots := g.slots, carried := g.carried } = g
  slots : h.slots.map (Option.map Node.seated) = g.slots.map (Option.map Node.seated)

namespace SamePass

variable {g h k : Graph β}

theorem refl (g : Graph β) : SamePass g g := ⟨rfl, rfl⟩

theorem trans (hgh : SamePass g h) (hhk : SamePass h k) : SamePass g k := by
  refine ⟨?_, hhk.slots.trans hgh.slots⟩
  have hrest : { k with slots := g.slots, carried := g.carried } =
      { h with slots := g.slots, carried := g.carried } :=
    congrArg (fun x : Graph β => { x with slots := g.slots, carried := g.carried }) hhk.rest
  exact hrest.trans hgh.rest

theorem loops (h : SamePass g k) : k.loops = g.loops :=
  (congrArg Graph.loops h.rest :)

theorem types (h : SamePass g k) : k.types = g.types :=
  (congrArg Graph.types h.rest :)

theorem connections (h : SamePass g k) : k.connections = g.connections :=
  (congrArg Graph.connections h.rest :)

theorem timer (h : SamePass g k) : k.timer = g.timer :=
  (congrArg Graph.timer h.rest :)

theorem frame (h : SamePass g k) : k.frame = g.frame :=
  (congrArg Graph.frame h.rest :)

theorem node? (h : SamePass g k) (id : NodeId) :
    (k.node? id).map Node.seated = (g.node? id).map Node.seated := by
  rw [node?_map, node?_map, h.slots]

theorem node?_isSome (h : SamePass g k) (id : NodeId) :
    (k.node? id).isSome = (g.node? id).isSome := by
  simpa using congrArg Option.isSome (h.node? id)

end SamePass

end Graph

namespace Progress

open FrameGraph.Graph

variable [Behavior β] {plan : Plan} {pass : Pass} {p q : Progress β}

/-! ### Invocations -/

theorem invoke_report (p : Progress β) (plan : Plan) (pass : Pass) (id : NodeId) (node : Node β) :
    (p.invoke plan pass id node).1.report = p.report := by
  unfold invoke
  dsimp only
  split <;> rfl

theorem invoke_samePass (p : Progress β) (plan : Plan) (pass : Pass) (id : NodeId)
    (node : Node β) : SamePass p.graph (p.invoke plan pass id node).1.graph := by
  unfold invoke
  dsimp only
  split
  · exact ⟨rfl, modifyNode_map _ id _ _ fun _ _ => rfl⟩
  · exact .refl _

/-- An invocation is recorded with what the node sees, before the remarks of its behavior, and it
leaves in the node's slot what the node's work makes of exactly that. -/
theorem invoke_recorded (plan : Plan) (pass : Pass) {id : NodeId} {n : Node β}
    (hlive : p.graph.node? id = some n) : ∃ remarks : List Note,
    (p.invoke plan pass id n).1.journal.toList =
      p.journal.toList ++ .invoked (p.context plan pass id n) :: remarks.map .note ∧
    (p.invoke plan pass id n).1.graph.node? id =
      some (n.act (p.graph.type? n.type) (p.context plan pass id n)).1 ∧
    (p.invoke plan pass id n).2 =
      (n.act (p.graph.type? n.type) (p.context plan pass id n)).2 := by
  cases hwork : n.work with
  | none =>
    simp only [invoke, Node.act, hwork]
    exact ⟨[], by simp, hlive, trivial⟩
  | some work =>
    cases htype : p.graph.type? n.type with
    | none =>
      simp only [invoke, Node.act, hwork, htype]
      exact ⟨[], by simp, hlive, trivial⟩
    | some type =>
      simp only [invoke, Node.act, hwork, htype, record]
      rw [node?_modifyNode, if_pos rfl, hlive]
      exact ⟨((Behavior.act work (p.context plan pass id n)).run type.outputs n.outputs).notes,
        by simp, rfl, trivial⟩

/-! ### Steps -/

/-- What a step that does not fail does to a frame in progress. -/
inductive Stepped (plan : Plan) (pass : Pass) (p : Progress β) : Step → Progress β → Prop
  | transferred (t : Nat) : Stepped plan pass p (.transfer t) (p.transfer plan t)
  | skipped (id : NodeId) (closed : p.graph.runs plan pass id = false) :
      Stepped plan pass p (.node id) (p.skip pass id)
  /-- The node is gone. -/
  | vacant (id : NodeId) (runs : p.graph.runs plan pass id = true)
      (gone : p.graph.node? id = none) : Stepped plan pass p (.node id) (p.finish pass id none)
  | invoked (id : NodeId) (node : Node β) (next : Progress β)
      (runs : p.graph.runs plan pass id = true) (live : p.graph.node? id = some node)
      (done : p.invoke plan pass id node = (next, none)) :
      Stepped plan pass p (.node id) (next.finish pass id (p.graph.drivingLoop? node))

theorem stepped_of_step {s : Step} (h : p.step plan pass s = (q, none)) :
    Stepped plan pass p s q := by
  cases s with
  | transfer t =>
    obtain ⟨rfl, _⟩ := Prod.mk.inj h
    exact .transferred t
  | node id =>
    simp only [step] at h
    split at h
    · next hruns =>
      split at h
      · next hgone =>
        obtain ⟨rfl, _⟩ := Prod.mk.inj h
        exact .vacant id hruns hgone
      · next node hlive =>
        split at h
        · next next hdone =>
          obtain ⟨rfl, _⟩ := Prod.mk.inj h
          exact .invoked id node next hruns hlive hdone
        · cases h
    · next hclosed =>
      obtain ⟨rfl, _⟩ := Prod.mk.inj h
      exact .skipped id (Bool.eq_false_iff.mpr hclosed)

theorem walk_cons {s : Step} {rest : List Step} (h : p.walk plan pass (s :: rest) = (q, none)) :
    ∃ next, Stepped plan pass p s next ∧ next.walk plan pass rest = (q, none) := by
  simp only [walk] at h
  split at h
  · next next hstep => exact ⟨next, stepped_of_step hstep, h⟩
  · cases h

theorem Stepped.samePass {s : Step} (h : Stepped plan pass p s q) : SamePass p.graph q.graph := by
  cases h with
  | transferred t => exact ⟨rfl, rfl⟩
  | skipped id closed =>
    rw [skip_graph]
    exact .refl _
  | vacant id runs gone => exact .refl _
  | invoked id node next runs live done =>
    have hinvoke := p.invoke_samePass plan pass id node
    rw [done] at hinvoke
    exact hinvoke

theorem Stepped.catchUpPasses {s : Step} (h : Stepped plan pass p s q) :
    q.report.catchUpPasses = p.report.catchUpPasses := by
  cases h with
  | transferred t | vacant id runs gone => rfl
  | skipped id closed => cases pass <;> rfl
  | invoked id node next runs live done =>
    have hreport := p.invoke_report plan pass id node
    rw [done] at hreport
    change next.report.catchUpPasses = _
    exact congrArg FrameReport.catchUpPasses hreport

/-- The entry that records the run of a step. -/
def recorded? (p : Progress β) (plan : Plan) (pass : Pass) : Step → Option Event
  | .transfer t => some (.transferred t)
  | .node id =>
    if p.graph.runs plan pass id then
      (p.graph.node? id).map fun node => .invoked (p.context plan pass id node)
    else none

/-- A step adds its own entry to the journal, beside notes and nodes that are passed over. -/
theorem Stepped.filterMap_journal {s : Step} {γ : Type} (h : Stepped plan pass p s q)
    (f : Event → Option γ) (hnote : ∀ remark, f (.note remark) = none)
    (hskipped : ∀ id name frame, f (.skipped id name frame) = none) :
    q.journal.toList.filterMap f =
      p.journal.toList.filterMap f ++ (p.recorded? plan pass s).toList.filterMap f := by
  cases h with
  | transferred t => simp [transfer, recorded?]
  | skipped id closed => cases pass <;> simp [skip, recorded?, closed, hskipped]
  | vacant id runs gone => simp [finish, recorded?, runs, gone]
  | invoked id node next runs live done =>
    obtain ⟨remarks, hjournal, _⟩ := invoke_recorded plan pass live
    rw [done] at hjournal
    change next.journal.toList.filterMap f = _
    rw [hjournal, List.filterMap_append, List.filterMap_cons, Event.filterMap_note f hnote]
    simp [recorded?, runs, live, List.filterMap_cons]

def trace (p : Progress β) : List Step := p.journal.toList.filterMap Event.step?

theorem Stepped.trace {s : Step} (h : Stepped plan pass p s q) :
    q.trace = p.trace ∨ q.trace = p.trace ++ [s] := by
  have hjournal := h.filterMap_journal Event.step? (fun _ => rfl) fun _ _ _ => rfl
  rw [Progress.trace, Progress.trace, hjournal]
  cases s with
  | transfer t => exact .inr rfl
  | node id =>
    simp only [recorded?]
    split
    · cases p.graph.node? id with
      | none => exact .inl (List.append_nil _)
      | some node => exact .inr rfl
    · exact .inl (List.append_nil _)

/-! ### Walks -/

variable {steps : List Step}

theorem walk_samePass (h : p.walk plan pass steps = (q, none)) : SamePass p.graph q.graph := by
  induction steps generalizing p with
  | nil =>
    obtain ⟨rfl, _⟩ := Prod.mk.inj h
    exact .refl _
  | cons s rest ih =>
    obtain ⟨next, hstep, hrest⟩ := walk_cons h
    exact hstep.samePass.trans (ih hrest)

theorem walk_catchUpPasses (h : p.walk plan pass steps = (q, none)) :
    q.report.catchUpPasses = p.report.catchUpPasses := by
  induction steps generalizing p with
  | nil =>
    obtain ⟨rfl, _⟩ := Prod.mk.inj h
    rfl
  | cons s rest ih =>
    obtain ⟨next, hstep, hrest⟩ := walk_cons h
    rw [ih hrest, hstep.catchUpPasses]

theorem walk_trace (h : p.walk plan pass steps = (q, none)) :
    ∃ ran, ran.Sublist steps ∧ q.trace = p.trace ++ ran := by
  induction steps generalizing p with
  | nil =>
    obtain ⟨rfl, _⟩ := Prod.mk.inj h
    exact ⟨[], .slnil, (List.append_nil _).symm⟩
  | cons s rest ih =>
    obtain ⟨next, hstep, hrest⟩ := walk_cons h
    obtain ⟨ran, hran, htrace⟩ := ih hrest
    rcases hstep.trace with hnone | hone
    · exact ⟨ran, hran.cons s, by rw [htrace, hnone]⟩
    · exact ⟨s :: ran, hran.cons_cons s, by rw [htrace, hone, List.append_assoc]; rfl⟩

/-! ### Catching up -/

/-- The beginning of a catch-up pass, with the loops as the step leaves them. -/
def beginPass (p : Progress β) (loops : LoopTable Float) : Progress β :=
  { p with
    graph := { p.graph with loops }
    report := { p.report with catchUpPasses := p.report.catchUpPasses + 1 } }

/-- Catch-up passes that end with no loop behind, after at most so many. -/
inductive CaughtUp (plan : Plan) : Nat → Progress β → Progress β → Prop
  | done {limit : Nat} {p : Progress β} (settled : p.graph.loops.catchUp? = none) :
      CaughtUp plan limit p p
  | pass {limit : Nat} {p next q : Progress β} {loops : LoopTable Float}
      (behind : p.graph.loops.catchUp? = some loops)
      (walked : (p.beginPass loops).walk plan .catchUp plan.order = (next, none))
      (rest : CaughtUp plan limit next q) : CaughtUp plan (limit + 1) p q

theorem caughtUp_of_catchUp {limit : Nat} (h : p.catchUp plan limit = (q, .done)) :
    CaughtUp plan limit p q := by
  induction limit generalizing p with
  | zero =>
    unfold catchUp at h
    split at h
    · next hnone =>
      obtain ⟨rfl, _⟩ := Prod.mk.inj h
      exact .done hnone
    · cases h
  | succ limit ih =>
    unfold catchUp at h
    split at h
    · next hnone =>
      obtain ⟨rfl, _⟩ := Prod.mk.inj h
      exact .done hnone
    · next loops hbehind =>
      dsimp only at h
      split at h
      · next next hwalk => exact .pass hbehind hwalk (ih h)
      · cases h

theorem CaughtUp.trace {limit : Nat} (h : CaughtUp plan limit p q) :
    ∃ passes : List (List Step), (∀ pass ∈ passes, pass.Sublist plan.order) ∧
      q.trace = p.trace ++ passes.flatten ∧
      q.report.catchUpPasses = p.report.catchUpPasses + passes.length := by
  induction h with
  | done settled => exact ⟨[], fun _ hpass => (nomatch hpass), by simp, rfl⟩
  | pass behind walked rest ih =>
    obtain ⟨ran, hran, htrace⟩ := walk_trace walked
    obtain ⟨passes, hpasses, hrest, hcount⟩ := ih
    refine ⟨ran :: passes, ?_, ?_, ?_⟩
    · exact List.forall_mem_cons.mpr ⟨hran, hpasses⟩
    · rw [hrest, htrace, List.flatten_cons, List.append_assoc]
      rfl
    · rw [hcount, walk_catchUpPasses walked, List.length_cons]
      exact Nat.add_right_comm _ 1 _

end Progress

/-! ### Frames -/

namespace Graph

def opening (g : Graph β) (override : Option Float) : Progress β :=
  let (delta, timed) := g.frameDelta override
  { graph := timed.begin.advance delta
    report := { frame := timed.begin.frame, delta }
    journal := ((timed.begin.loops.reports delta).map Event.loop).toArray }

theorem opening_filterMap {γ : Type} (g : Graph β) (override : Option Float)
    (f : Event → Option γ) (hf : ∀ report, f (.loop report) = none) :
    (g.opening override).journal.toList.filterMap f = [] := by
  change ((List.map Event.loop _).toArray.toList).filterMap f = []
  rw [List.toList_toArray, List.filterMap_map]
  exact List.filterMap_eq_nil_iff.mpr fun report _ => hf report

theorem opening_trace (g : Graph β) (override : Option Float) : (g.opening override).trace = [] :=
  g.opening_filterMap override Event.step? fun _ => rfl

variable [Behavior β] {g : Graph β} {limit : Nat} {plan : Plan} {override : Option Float}
  {watch : Stopwatch}

omit [Behavior β] in
/-- What a frame records after its passes are measured times and nothing else. -/
theorem settled_untimed (p : Progress β) (watch : Stopwatch) :
    (p.settled watch).loops.untimed = p.graph.loops.settle.untimed :=
  LoopTable.recordAll_untimed _ _

/-- How a frame ends is decided by its passes. -/
theorem runFrame_passes (g : Graph β) (limit : Nat) (plan : Plan) (override : Option Float)
    (watch : Stopwatch) : ∃ p ending, (g.opening override).passes plan limit = (p, ending) ∧
      g.runFrame limit plan override watch =
        match ending with
        | .done => ⟨p.settled watch, .ok p.report, p.journal.push (.completed p.report)⟩
        | .failed failure =>
          ⟨p.settled watch,
            .error (.nodeFailed (p.graph.nameOf failure.node) failure.error p.report),
            p.journal.push (.failed (p.graph.nameOf failure.node)
              (g.opening override).report.frame failure.error)⟩
        | .stillBehind => ⟨p.settled watch, .error (.stillBehind p.report), p.journal⟩ :=
  ⟨_, _, rfl, rfl⟩

theorem runFrame_ok {report : FrameReport}
    (h : (g.runFrame limit plan override watch).answer = .ok report) :
    ∃ main last, (g.opening override).walk plan .main plan.order = (main, none) ∧
      main.CaughtUp plan limit last ∧ report = last.report ∧
      (g.runFrame limit plan override watch).graph = last.settled watch ∧
      (g.runFrame limit plan override watch).journal =
        last.journal.push (.completed last.report) := by
  obtain ⟨last, ending, hpasses, hrun⟩ := g.runFrame_passes limit plan override watch
  rw [hrun] at h ⊢
  cases ending with
  | failed failure => cases h
  | stillBehind => cases h
  | done =>
    unfold Progress.passes at hpasses
    split at hpasses
    · next main hwalk =>
      exact ⟨main, last, hwalk, Progress.caughtUp_of_catchUp hpasses, (Except.ok.inj h).symm, rfl,
        rfl⟩
    · cases hpasses

/-- What ran in a frame without a failure: the main pass, then the catch-up passes, each a part of
the plan in the order of the plan. -/
theorem runFrame_trace {report : FrameReport}
    (h : (g.runFrame limit plan override watch).answer = .ok report) :
    ∃ passes : List (List Step), passes.length = report.catchUpPasses + 1 ∧
      (∀ pass ∈ passes, pass.Sublist plan.order) ∧
      (g.runFrame limit plan override watch).journal.toList.filterMap Event.step? =
        passes.flatten := by
  obtain ⟨main, last, hwalk, hcaught, rfl, _, hjournal⟩ := runFrame_ok h
  obtain ⟨ran, hran, htrace⟩ := Progress.walk_trace hwalk
  obtain ⟨passes, hpasses, hrest, hcount⟩ := hcaught.trace
  refine ⟨ran :: passes, ?_, List.forall_mem_cons.mpr ⟨hran, hpasses⟩, ?_⟩
  · have hnone : main.report.catchUpPasses = 0 := Progress.walk_catchUpPasses hwalk
    rw [hcount, hnone, List.length_cons, Nat.zero_add]
  · have hend : (last.journal.push (.completed last.report)).toList.filterMap Event.step? =
        last.trace := by simp [Progress.trace, Event.step?]
    rw [hjournal, hend, hrest, htrace, opening_trace]
    rfl

theorem execute_ok {report : FrameReport}
    (h : (g.execute override watch limit).answer = .ok report) :
    ∃ plan, g.plan = some plan ∧ g.isOutdated = false ∧
      g.execute override watch limit = g.runFrame limit plan override watch := by
  unfold execute at h ⊢
  split at h
  · cases h
  · next plan hplan =>
    split at h
    · cases h
    · next hcurrent =>
      exact ⟨plan, hplan, Bool.eq_false_iff.mpr hcurrent, by simp [hcurrent]⟩

end Graph

end FrameGraph
