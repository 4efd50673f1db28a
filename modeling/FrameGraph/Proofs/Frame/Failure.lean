import FrameGraph.Proofs.Frame.Accounting
import FrameGraph.Proofs.Frame.Course
import FrameGraph.Proofs.Frame.Interruption
import FrameGraph.Proofs.Frame.Sequence
import FrameGraph.Proofs.Loop.Settling

/-! Frames that a failure ends. The failure breaks off one pass, the main one or a catch-up pass;
all passes before it are complete. So what the frame leaves is what the complete passes left and a
part of one more: the report lists what the main pass decided, the loops have taken the steps of
the passes that began, and the graph is as fit for the next frame as it was for this one. -/

namespace FrameGraph

variable {β : Type}

/-- Whether a node has work, and for how many outputs. -/
def Node.outline (n : Node β) : Bool × Nat := (n.work.isSome, n.outputs.length)

def Outcome.trace {ε α : Type} (o : Outcome β ε α) : List Step :=
  o.journal.toList.filterMap Event.step?

theorem Activity.length_run (a : Activity β) (ports : List OutputPort) (outputs : List Value) :
    (a.run ports outputs).outputs.length = outputs.length := by
  induction a generalizing outputs with
  | finish next failure => rfl
  | write index value rest ih =>
    simp only [run]
    split
    · exact ih _ _
    · rw [ih, List.length_set]
  | read index rest ih => exact ih _ _
  | note remark rest ih => exact ih _

theorem Progress.catchUpStarts_next [Behavior β] {plan : Plan} {first pass : Pass}
    {opening p last : Progress β} {loops : LoopTable Float} {k allowed : Nat} (hk : k < allowed)
    (hstart : ((first, opening) :: (catchUpStarts plan allowed
      (opening.walk plan first plan.order).1).map fun p => (.catchUp, p))[k]? = some (pass, p))
    (completed : p.walk plan pass plan.order = (last, none))
    (behind : last.graph.loops.catchUp? = some loops) :
    ((first, opening) :: (catchUpStarts plan allowed
      (opening.walk plan first plan.order).1).map fun p => (.catchUp, p))[k + 1]? =
        some (.catchUp, last.beginPass loops) := by
  obtain ⟨allowed, rfl⟩ : ∃ n, allowed = n + 1 := ⟨allowed - 1, by omega⟩
  induction k generalizing first opening allowed with
  | zero =>
    obtain ⟨rfl, rfl⟩ := Prod.mk.inj (Option.some.inj hstart)
    simp [completed, catchUpStarts, behind]
  | succ k ih =>
    rw [List.getElem?_cons_succ] at hstart ⊢
    cases hnext : (opening.walk plan first plan.order).1.graph.loops.catchUp? with
    | none =>
      rw [catchUpStarts_of_none hnext] at hstart
      cases hstart
    | some following =>
      obtain ⟨allowed, rfl⟩ : ∃ n, allowed = n + 1 := ⟨allowed - 1, by omega⟩
      rw [catchUpStarts, hnext] at hstart ⊢
      exact ih allowed (by omega) hstart

namespace Graph

variable [Behavior β] {g h : Graph β} {plan : Plan} {override : Option Float} {watch : Stopwatch}
  {limit : Nat}
  {pass : Pass} {start : Progress β}

/-! ### What running keeps of a node -/

theorem Effect.outline (e : Effect g h) :
    h.slots.map (Option.map Node.outline) = g.slots.map (Option.map Node.outline) := by
  cases e with
  | time | carry => rfl
  | propagate => exact propagate_map g _ fun _ _ => rfl
  | invoke id n type work c live known works params =>
    refine modifyNode_map g id _ _ fun m hm => ?_
    obtain rfl : n = m := Option.some.inj (live.symm.trans hm)
    simp only [Node.outline, works, Option.isSome_some, Activity.length_run]

theorem Effects.outline (e : Effects g h) :
    h.slots.map (Option.map Node.outline) = g.slots.map (Option.map Node.outline) := by
  induction e with
  | refl => rfl
  | tail _ e ih => exact e.outline.trans ih

/-! ### The passes before -/

theorem Begins.eq_opening (h : g.Begins plan override .main start) :
    start = g.opening override := by
  cases h
  rfl

/-- A pass that is complete counts no catch-up pass; the one that begins after it does. -/
theorem beginPass_catchUpPasses {last : Progress β}
    (completed : start.walk plan pass plan.order = (last, none)) (loops : LoopTable Float) :
    (last.beginPass loops).report.catchUpPasses = start.report.catchUpPasses + 1 :=
  congrArg (· + 1) (Progress.walk_catchUpPasses completed)

/-- As many passes were completed as catch-up passes have begun, each in the order of the plan. -/
theorem Begins.trace (h : g.Begins plan override pass start) :
    ∃ passes : List (List Step), passes.length = start.report.catchUpPasses ∧
      (∀ ran ∈ passes, ran.Sublist plan.order) ∧ start.trace = passes.flatten := by
  induction h with
  | main => exact ⟨[], rfl, fun _ hran => (nomatch hran), g.opening_trace override⟩
  | @catchUp pass start last loops before completed behind ih =>
    obtain ⟨passes, hlength, hpasses, htrace⟩ := ih
    obtain ⟨ran, hran, hlast⟩ := Progress.walk_trace completed
    refine ⟨passes ++ [ran], ?_, ?_, ?_⟩
    · rw [List.length_append, hlength, beginPass_catchUpPasses completed]
      rfl
    · intro old hold
      rcases List.mem_append.mp hold with hold | hnew
      · exact hpasses old hold
      · exact List.mem_singleton.mp hnew ▸ hran
    · have hsame : (last.beginPass loops).trace = last.trace := rfl
      rw [hsame, hlast, htrace]
      simp

theorem Begins.number (h : g.Begins plan override pass start) {allowed : Nat}
    (hallowed : start.report.catchUpPasses ≤ allowed) :
    (g.passStarts plan override allowed)[start.report.catchUpPasses]? = some (pass, start) := by
  induction h with
  | main => rfl
  | @catchUp pass start last loops before completed behind ih =>
    rw [beginPass_catchUpPasses completed] at hallowed ⊢
    exact Progress.catchUpStarts_next hallowed (ih (by omega)) completed behind

theorem Begins.rounds (h : g.Begins plan override pass start) (l : LoopId) :
    start.graph.loops.get? l =
      ((g.opening override).graph.loops.get? l).map Loop.catchUp^[start.report.catchUpPasses] := by
  induction h with
  | main => exact Option.map_id_apply.symm
  | @catchUp pass start last loops before completed behind ih =>
    have hloops : (last.beginPass loops).graph.loops.get? l =
        (last.graph.loops.get? l).map Loop.catchUp := LoopTable.catchUp?_get? behind l
    rw [hloops, beginPass_catchUpPasses completed, (Progress.walk_samePass completed).loops, ih,
      Option.map_map, Function.iterate_succ']

theorem Begins.tallied (h : g.Begins plan override pass start) (hp : g.RunBy plan) :
    start.Tallied := by
  refine (h.invariant (P := fun p => p.Tallied ∧ SameShape g p.graph) ?_
    (fun pass p last hp' hwalk => ?_) fun p loops hp' _ => ?_).1
  · exact ⟨⟨.nil, fun id => by rw [opening_trace]; rfl⟩, g.opening_sameShape override⟩
  · refine ⟨Progress.walk_tallied hwalk (fun id hid => ?_) hp'.1,
      hp'.2.trans (walk_sameShape hwalk)⟩
    rw [hp'.2.node?_isSome]
    exact hp.node_mem.mp hid
  · exact ⟨⟨hp'.1.ascending, hp'.1.count⟩, hp'.2.trans (.timing _ _ _ _)⟩

/-- Catch-up passes list no node, so that their reports list what the main pass decided. -/
theorem Begins.decided (h : g.Begins plan override pass start) (hp : g.RunBy plan)
    (hpass : pass = .catchUp) : 0 < start.report.catchUpPasses ∧
      ∃ main, (g.opening override).walk plan .main plan.order = (main, none) ∧
        start.report.executed = main.report.executed ∧
        start.report.skipped = main.report.skipped := by
  induction h with
  | main => cases hpass
  | @catchUp pass start last loops before completed behind ih =>
    refine ⟨Nat.succ_pos _, ?_⟩
    cases pass with
    | main =>
      rw [before.eq_opening] at completed
      exact ⟨last, completed, rfl, rfl⟩
    | catchUp =>
      obtain ⟨_, main, hwalk, hexecuted, hskipped⟩ := ih rfl
      have hreport := Progress.walk_report hp.isLinear completed
      refine ⟨main, hwalk, Eq.trans ?_ hexecuted, Eq.trans ?_ hskipped⟩
      · change last.report.executed = _
        rw [hreport]
        rfl
      · change last.report.skipped = _
        rw [hreport]
        rfl

/-! ### The frame -/

/-- The pass of a number, counted from zero for the main pass, fails at a node. The passes before it
are complete, each a part of the plan in the order of the plan. -/
structure FailsIn (g : Graph β) (plan : Plan) (override : Option Float) (number : Nat)
    (pass : Pass) (start : Progress β) (failure : Failure) : Prop where
  begins : g.Begins plan override pass start
  numbered : ∀ allowed, number ≤ allowed →
    (g.passStarts plan override allowed)[number]? = some (pass, start)
  complete : ∃ passes : List (List Step), passes.length = number ∧
    (∀ ran ∈ passes, ran.Sublist plan.order) ∧ start.trace = passes.flatten
  fails : (start.walk plan pass plan.order).2 = some failure

/-- What a frame leaves in which a node failed, after these steps of the plan and in the pass that
began so. -/
structure Interrupted (g : Graph β) (override : Option Float) (start : Progress β)
    (before : List Step) (id : NodeId) (report : FrameReport)
    (o : Outcome β ExecuteError FrameReport) : Prop where
  plan : o.graph.plan = g.plan
  isCompiled : o.graph.isCompiled = g.isCompiled
  /-- A node has work if it had. -/
  work : ∀ n, (o.graph.node? n).map (fun m => m.work.isSome) =
    (g.node? n).map fun m => m.work.isSome
  outputs : ∀ n, (o.graph.node? n).map (fun m => m.outputs.length) =
    (g.node? n).map fun m => m.outputs.length
  /-- The flags of the loops are those of the main pass. -/
  flags : ∀ l, o.graph.loops.isTriggered l = (g.opening override).graph.loops.isTriggered l
  /-- No step is paid but those of the catch-up passes that began. -/
  debts : ∀ l, (o.graph.loops.get? l).map Loop.debt =
    ((g.opening override).graph.loops.get? l).map fun loop =>
      (Loop.catchUp^[report.catchUpPasses] loop).debt
  /-- In the pass that failed no step ran after the node. -/
  ran : ∃ ran : List Step, ran.Sublist before ∧
    o.trace = start.trace ++ ran ++ [.node id]
  /-- All invocations are counted but the one that failed. -/
  invocations : ∀ n, o.trace.count (.node n) =
    report.invocations.count n + if id = n then 1 else 0

/-- What is left of a main pass that failed between two parts of the plan. -/
structure MainBroken (g : Graph β) (plan : Plan) (override : Option Float)
    (before after : List Step) (id : NodeId) (report : FrameReport)
    (o : Outcome β ExecuteError FrameReport) : Prop where
  catchUpPasses : report.catchUpPasses = 0
  transfers : report.transfers = before.countP fun s => s.node?.isNone
  nodes : (report.executed ++ report.skipped ++ [id]).Perm (plan.order.filterMap Step.node?)
  before : ∀ n, .node n ∈ before →
    (n ∈ report.executed ↔ g.mainRuns plan override n = true) ∧
      (n ∈ report.skipped ↔ g.mainRuns plan override n = false)
  after : ∀ n, .node n ∈ after →
    n ∈ report.skipped ∧ .node n ∉ o.trace ∧ HoldsAlike g o.graph n

/-- What a report tells after a catch-up pass has failed. -/
structure CatchUpBroken (g : Graph β) (plan : Plan) (override : Option Float)
    (report : FrameReport) : Prop where
  catchUpPasses : 0 < report.catchUpPasses
  /-- The lists are those of the main pass, which is complete. -/
  main : ∃ main, (g.opening override).walk plan .main plan.order = (main, none) ∧
    report.executed = main.report.executed ∧ report.skipped = main.report.skipped
  nodes : (report.executed ++ report.skipped).Perm (plan.order.filterMap Step.node?)
  decided : ∀ n, .node n ∈ plan.order →
    (n ∈ report.executed ↔ g.mainRuns plan override n = true) ∧
      (n ∈ report.skipped ↔ g.mainRuns plan override n = false)

/-- A frame that a failure ends stops where its last pass is broken off. -/
theorem runFrame_failed {name : String} {error : NodeError} {report : FrameReport}
    (h : (g.runFrame limit plan override watch).answer = .error (.nodeFailed name error report)) :
    ∃ pass start last id, g.Begins plan override pass start ∧
      start.walk plan pass plan.order = (last, some ⟨id, error⟩) ∧
      name = last.graph.nameOf id ∧ report = last.report ∧
      (g.runFrame limit plan override watch).graph = last.settled watch ∧
      (g.runFrame limit plan override watch).trace = last.trace := by
  obtain ⟨last, ending, hpasses, hrun⟩ := g.runFrame_passes limit plan override watch
  obtain ⟨pass, start, hbegins, hwalk⟩ := passes_last hpasses
  rw [hrun] at h ⊢
  cases ending with
  | done | stillBehind => cases h
  | failed failure =>
    obtain ⟨hname, herror, hreport⟩ := ExecuteError.nodeFailed.inj (Except.error.inj h)
    subst herror
    exact ⟨pass, start, last, failure.node, hbegins, hwalk, hname.symm, hreport.symm, rfl, by
      simp [Outcome.trace, Progress.trace, Event.step?]⟩

theorem execute_failed {name : String} {error : NodeError} {report : FrameReport}
    (h : (g.execute override watch limit).answer = .error (.nodeFailed name error report)) :
    ∃ plan, g.plan = some plan ∧ g.isOutdated = false ∧
      g.execute override watch limit = g.runFrame limit plan override watch := by
  unfold execute at h ⊢
  split at h
  · cases h
  · next plan hplan =>
    split at h
    · cases h
    · next hcurrent => exact ⟨plan, hplan, Bool.eq_false_iff.mpr hcurrent, by simp [hcurrent]⟩

/-! ### What the report tells -/

variable {before after : List Step} {failure : Failure} {mid last : Progress β}
  {o : Outcome β ExecuteError FrameReport}

theorem Begins.catchUpBroken (hp : g.RunBy plan) (hbegins : g.Begins plan override .catchUp start)
    (hsteps : plan.IsLinear before)
    (hbroken : Progress.BrokenOff plan .catchUp start before after failure mid last) :
    g.CatchUpBroken plan override last.report := by
  obtain ⟨hpos, main, hmain, hexecuted, hskipped⟩ := hbegins.decided hp rfl
  obtain ⟨hnodes, hdecided⟩ := walk_decided hp hmain
  have hlast : last.report = start.report.after .catchUp (mid.graph.runs plan .catchUp) before :=
    hbroken.report.trans (Progress.walk_report hsteps hbroken.completed)
  have hexecuted : last.report.executed = main.report.executed := by rw [hlast, ← hexecuted]; rfl
  have hskipped : last.report.skipped = main.report.skipped := by rw [hlast, ← hskipped]; rfl
  refine ⟨hbroken.catchUpPasses ▸ hpos, ⟨main, hmain, hexecuted, hskipped⟩, ?_, ?_⟩
  · rw [hexecuted, hskipped]
    exact hnodes
  · rw [hexecuted, hskipped]
    exact hdecided

/-- The main pass fails: its report lists the steps before as they ran and all later ones as
skipped. -/
theorem mainBroken_report (hsteps : plan.IsLinear before)
    (hbroken : Progress.BrokenOff plan .main (g.opening override) before after failure mid last) :
    last.report.executed = (before.filterMap Step.node?).filter (mid.graph.runs plan .main) ∧
      last.report.skipped =
        ((before.filterMap Step.node?).filter fun n => !mid.graph.runs plan .main n) ++
          after.filterMap Step.node? ∧
      last.report.transfers = before.countP fun s => s.node?.isNone := by
  have hmid := Progress.walk_report hsteps hbroken.completed
  rw [hbroken.report, Progress.abandon, hmid]
  exact ⟨rfl, rfl, Nat.zero_add _⟩

theorem mainBroken_untouched (hsteps : plan.IsLinear before)
    (hbroken : Progress.BrokenOff plan .main (g.opening override) before after failure mid last)
    {n : NodeId} (hbefore : .node n ∉ before) (hother : Step.node n ≠ .node failure.node) :
    .node n ∉ last.trace ∧ (last.graph.node? n).map Node.held = (g.node? n).map Node.held := by
  constructor
  · obtain ⟨ran, hran, hmid⟩ := Progress.walk_trace hbroken.completed
    rw [hbroken.trace, hmid, opening_trace, List.nil_append, List.mem_append, List.mem_singleton]
    exact fun hmem => hmem.elim (fun hmem => hbefore (hran.subset hmem)) hother
  · have hsame : last.graph.node? n = (g.opening override).graph.node? n :=
      hbroken.others hsteps hbefore hother
    rw [hsame, opening_held]

theorem mainBroken (hp : g.RunBy plan) (horder : plan.order = before ++ .node failure.node :: after)
    (hbroken : Progress.BrokenOff plan .main (g.opening override) before after failure mid last)
    (hgraph : o.graph = last.settled watch) (htrace : o.trace = last.trace) :
    g.MainBroken plan override before after failure.node last.report o := by
  have hsteps : plan.IsLinear before := (horder ▸ hp.isLinear).of_append.1
  have hnodup := hp.nodup
  rw [horder, List.nodup_append] at hnodup
  obtain ⟨_, hlater, hapart⟩ := hnodup
  obtain ⟨hexecuted, hskipped, htransfers⟩ := mainBroken_report hsteps hbroken
  constructor
  case catchUpPasses => exact hbroken.catchUpPasses
  case transfers => exact htransfers
  case nodes =>
    have hdivided := List.filter_append_perm (mid.graph.runs plan .main)
      (before.filterMap Step.node?)
    rw [hexecuted, hskipped, horder, List.filterMap_append, List.filterMap_cons,
      ← List.append_assoc, List.append_assoc]
    exact hdivided.append (List.perm_append_singleton _ _)
  case before =>
    intro n hn
    have hruns := Progress.runs_atTurn_of_prefix horder hsteps hbroken.completed hn
    have hfresh : n ∉ after.filterMap Step.node? := fun hmem =>
      hapart _ hn _ (List.mem_cons_of_mem _ (FrameReport.mem_nodes.mp hmem)) rfl
    rw [hexecuted, hskipped, mainRuns, hruns, List.mem_append, List.mem_filter, List.mem_filter,
      FrameReport.mem_nodes]
    simp [hn, hfresh]
  case after =>
    intro n hn
    have hfresh : .node n ∉ before := fun hmem => hapart _ hmem _ (List.mem_cons_of_mem _ hn) rfl
    have hother : Step.node n ≠ .node failure.node := fun heq =>
      (List.nodup_cons.mp hlater).1 (heq ▸ hn)
    obtain ⟨hinvoked, hheld⟩ := mainBroken_untouched hsteps hbroken hfresh hother
    refine ⟨?_, htrace ▸ hinvoked, ?_⟩
    · rw [hskipped]
      exact List.mem_append_right _ (FrameReport.mem_nodes.mpr hn)
    · rw [HoldsAlike, hgraph]
      exact hheld

/-- What every interrupted frame leaves of the graph. -/
theorem interrupted (hp : g.RunBy plan) (hbegins : g.Begins plan override pass start)
    (horder : plan.order = before ++ .node failure.node :: after)
    (hbroken : Progress.BrokenOff plan pass start before after failure mid last)
    (heffects : Effects g o.graph) (hgraph : o.graph = last.settled watch)
    (htrace : o.trace = last.trace) :
    g.Interrupted override start before failure.node last.report o := by
  have hshape := heffects.sameShape
  have houtline (n : NodeId) :
      (o.graph.node? n).map Node.outline = (g.node? n).map Node.outline := by
    rw [node?_map, node?_map, heffects.outline]
  have hrounds (l : LoopId) := hbegins.rounds l
  rw [← hbroken.samePass.loops, ← hbroken.catchUpPasses] at hrounds
  have hloops : o.graph.loops.untimed = last.graph.loops.settle.untimed := by
    rw [hgraph, settled_untimed]
  constructor
  case plan => exact hshape.plan
  case isCompiled => rw [isCompiled, isCompiled, hshape.plan, hshape.isOutdated]
  case work =>
    intro n
    have hwork := congrArg (Option.map Prod.fst) (houtline n)
    rwa [Option.map_map, Option.map_map] at hwork
  case outputs =>
    intro n
    have houtputs := congrArg (Option.map Prod.snd) (houtline n)
    rwa [Option.map_map, Option.map_map] at houtputs
  case flags =>
    intro l
    have hlast := hrounds l
    rw [opening_loops] at hlast ⊢
    rw [LoopTable.isTriggered_of_untimed hloops]
    exact LoopTable.isTriggered_settle hlast
  case debts =>
    intro l
    rw [LoopTable.map_get?_of_untimed (fun _ => rfl) hloops, LoopTable.settle_get?, hrounds l,
      Option.map_map, Option.map_map]
    exact congrArg (Option.map · _) (funext fun loop => Loop.settle_debt _)
  case ran =>
    obtain ⟨ran, hran, hmid⟩ := Progress.walk_trace hbroken.completed
    exact ⟨ran, hran, by rw [htrace, hbroken.trace, hmid]⟩
  case invocations =>
    intro n
    rw [htrace]
    refine hbroken.count (fun id hid => ?_) (hbegins.tallied hp) n
    rw [hbegins.effects.sameShape.node?_isSome]
    exact hp.node_mem.mp (horder ▸ List.mem_append_left _ hid)

/-! ### Failures -/

/-- A frame that a failure ends, of any compiled graph and in any pass. The graph stays as fit for
the next frame as it was for this one, its loops are where the passes that began have brought them,
and the report accounts for every node of the plan and for every invocation but the one that failed.
-/
theorem Reachable.frame_interrupted (hg : Reachable g) (hplan : g.plan = some plan) {name : String}
    {error : NodeError} {report : FrameReport}
    (hfailed : (g.execute override watch limit).answer = .error (.nodeFailed name error report)) :
    ∃ pass start id before after, g.nameOf id = name ∧
      plan.order = before ++ .node id :: after ∧ plan.order.Nodup ∧
      g.FailsIn plan override report.catchUpPasses pass start ⟨id, error⟩ ∧
      g.Interrupted override start before id report (g.execute override watch limit) ∧
      (pass = .main →
        g.MainBroken plan override before after id report (g.execute override watch limit)) ∧
      (pass = .catchUp → g.CatchUpBroken plan override report) := by
  obtain ⟨installed, hinstalled, hcurrent, hrun⟩ := execute_failed hfailed
  obtain rfl : plan = installed := Option.some.inj (hplan.symm.trans hinstalled)
  rw [hrun] at hfailed ⊢
  have hp := hg.runBy hplan hcurrent
  obtain ⟨pass, start, last, id, hbegins, hwalk, rfl, rfl, hgraph, htrace⟩ :=
    runFrame_failed hfailed
  obtain ⟨before, after, mid, horder, hbroken⟩ := Progress.walk_brokenOff hwalk
  have hsteps : plan.IsLinear before := (horder ▸ hp.isLinear).of_append.1
  have heffects := g.runFrame_effects limit plan override watch
  have hname : g.nameOf id = last.graph.nameOf id := by
    have hnode := congrArg (Option.map Node.name) (heffects.sameShape.node? id)
    rw [Option.map_map, Option.map_map, hgraph] at hnode
    exact congrArg (Option.getD · "") hnode.symm
  refine ⟨pass, start, id, before, after, hname, horder, hp.nodup, ⟨hbegins, ?_, ?_, ?_⟩,
    interrupted hp hbegins horder hbroken heffects hgraph htrace, ?_, ?_⟩
  · rw [hbroken.catchUpPasses]
    exact fun allowed => hbegins.number
  · rw [hbroken.catchUpPasses]
    exact hbegins.trace
  · rw [hwalk]
  · rintro rfl
    obtain rfl := hbegins.eq_opening
    exact mainBroken hp horder hbroken hgraph htrace
  · rintro rfl
    exact hbegins.catchUpBroken hp hsteps hbroken

def brittleType : NodeType Script :=
  { passType with
    name := "Brittle"
    work := some (.custom { actions := [.fail (.failed "overload") none (some true)] }) }

/-- A chain of passes in which the second is driven by a loop and fails on catch-up steps. -/
def fuse : Graph Script :=
  let looped := (Command.run ({} : Graph Script)
    (.registerLoop { name := "physics", timestep := 0.125, cap := 0.25 })).graph
  let typed := (Command.run looped (.registerType passType)).graph
  let both := (Command.run typed (.registerType brittleType)).graph
  let source := (Command.run both (.create ⟨3⟩ "source")).graph
  let solver := (Command.run source (.create ⟨4⟩ "solver")).graph
  let blur := (Command.run solver (.create ⟨3⟩ "blur")).graph
  let bridge := (Command.run blur (.addBridge "rate" ⟨0⟩)).graph
  let connected := List.foldl (fun g c => (Command.run g c).graph) bridge
    [.connect ⟨⟨0⟩, .data 0, ⟨1⟩, .data 0⟩, .connect ⟨⟨1⟩, .data 0, ⟨2⟩, .data 0⟩,
      .connect ⟨⟨3⟩, .loopOut, ⟨1⟩, .loopIn⟩]
  (Command.run connected .compile).graph

theorem fuse_reachable : Reachable fuse := by
  have hnodes := (((((((Reachable.new (β := Script) (.ofClock {}) {}).run
    (.registerLoop { name := "physics", timestep := 0.125, cap := 0.25 })).run
    (.registerType passType)).run (.registerType brittleType)).run (.create ⟨3⟩ "source")).run
    (.create ⟨4⟩ "solver")).run (.create ⟨3⟩ "blur")).run (.addBridge "rate" ⟨0⟩)
  exact (hnodes.edits _).run .compile

theorem fuse_fails : ∃ report, (fuse.execute (some 0.25)).answer =
    .error (.nodeFailed "solver" (.failed "overload") report) ∧ report.catchUpPasses = 1 := by
  have hreported : (match (fuse.execute (some 0.25)).answer with
      | .error (.nodeFailed name error report) =>
        name == "solver" && error == .failed "overload" && report.catchUpPasses == 1
      | _ => false) = true := by decide +kernel
  split at hreported
  · next name error report hanswer =>
    simp only [Bool.and_eq_true, beq_iff_eq] at hreported
    obtain ⟨⟨rfl, rfl⟩, hcount⟩ := hreported
    exact ⟨report, hanswer, hcount⟩
  · cases hreported

/-- In a quarter of a second the second pass fails in the one catch-up pass. It was invoked twice
and is counted once, and the report lists the nodes as the main pass left them. -/
theorem fuse_interrupted : ∃ plan report, fuse.plan = some plan ∧
    (fuse.execute (some 0.25)).answer =
      .error (.nodeFailed "solver" (.failed "overload") report) ∧
    fuse.CatchUpBroken plan (some 0.25) report ∧
    (fuse.execute (some 0.25)).trace.count (.node ⟨1⟩) = 2 ∧
    report.invocations.count ⟨1⟩ = 1 := by
  obtain ⟨report, hfailed, hcount⟩ := fuse_fails
  obtain ⟨plan, hplan, _⟩ := execute_failed hfailed
  have htrace : (fuse.execute (some 0.25)).trace =
      [.node ⟨0⟩, .node ⟨3⟩, .node ⟨1⟩, .node ⟨2⟩, .node ⟨3⟩, .node ⟨1⟩] := by decide +kernel
  obtain ⟨pass, start, id, before, after, _, _, _, _, hleft, hmain, hcatchUp⟩ :=
    fuse_reachable.frame_interrupted hplan hfailed
  have hpass : pass = .catchUp := by
    cases pass with
    | main => exact absurd ((hmain rfl).catchUpPasses.symm.trans hcount) (by decide)
    | catchUp => rfl
  obtain ⟨ran, _, hran⟩ := hleft.ran
  have hlast : Step.node id = .node ⟨1⟩ := by
    have hend := congrArg List.getLast? (hran.symm.trans htrace)
    simpa using hend
  have htwice : (fuse.execute (some 0.25)).trace.count (.node ⟨1⟩) = 2 := by
    rw [htrace]
    rfl
  have hinvocations := hleft.invocations ⟨1⟩
  rw [htwice, Step.node.inj hlast, if_pos rfl] at hinvocations
  exact ⟨plan, report, hplan, hfailed, hcatchUp hpass, htwice, by omega⟩

end Graph

end FrameGraph
