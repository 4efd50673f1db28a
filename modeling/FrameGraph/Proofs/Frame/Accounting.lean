import FrameGraph.Proofs.Frame.Attendance
import FrameGraph.Proofs.Frame.Succession
import FrameGraph.Proofs.Graph.Supply
import FrameGraph.Proofs.Loop.Rounds

/-! The accounts of a frame that no failure ends. All its numbers follow from how far each loop
stepped: the passes from the busiest loop, the invocations of a driven node from the busiest of
its loops, since a loop that sits out a pass does not come back within the frame. Only the
invocations of a gated node depend on values; they count the passes in which its gate was open
at its turn. -/

namespace FrameGraph

variable {β : Type}

/-! ### Reports of passes -/

namespace FrameReport

variable {r : FrameReport} {pass : Pass} {runs : NodeId → Bool} {steps : List Step}

theorem count_after (hasc : r.invocations.Ascending) (hnodup : steps.Nodup) {id : NodeId}
    (hid : .node id ∈ steps) :
    (r.after pass runs steps).invocations.Ascending ∧
      (r.after pass runs steps).invocations.count id =
        r.invocations.count id + if runs id then 1 else 0 := by
  obtain ⟨hkept, hcount⟩ := hasc.count_foldl ((steps.filterMap Step.node?).filter runs) id
  refine ⟨hkept, hcount.trans (congrArg (r.invocations.count id + ·) ?_)⟩
  have hone := List.count_eq_one_of_mem (nodup_nodes hnodup) (mem_nodes.mpr hid)
  split
  · next hruns => rw [List.count_filter hruns, hone]
  · next hruns => exact List.count_eq_zero_of_not_mem fun h => hruns (List.mem_filter.mp h).2

end FrameReport

theorem Graph.RunBy.countP_transfers {g : Graph β} {plan : Plan} (hp : g.RunBy plan) :
    plan.order.countP (fun s => s.node?.isNone) = plan.transfers.length := by
  have hinj : ((List.range plan.transfers.length).map Step.transfer).Nodup :=
    List.nodup_range.map fun a b h => Step.transfer.inj h
  have hperm : (plan.order.filter fun s => s.node?.isNone).Perm
      ((List.range plan.transfers.length).map Step.transfer) := by
    refine (List.perm_ext_iff_of_nodup (hp.nodup.filter _) hinj).mpr fun s => ?_
    rw [List.mem_filter, hp.mem_order, List.mem_map]
    cases s <;> simp [Step.node?]
  rw [List.countP_eq_length_filter, hperm.length_eq, List.length_map, List.length_range]

/-! ### The passes of a frame -/

variable [Behavior β]

/-- The states in which the catch-up passes begin, if at most so many are allowed. -/
def Progress.catchUpStarts (plan : Plan) : Nat → Progress β → List (Progress β)
  | 0, _ => []
  | limit + 1, p =>
    match p.graph.loops.catchUp? with
    | none => []
    | some loops =>
      p.beginPass loops ::
        catchUpStarts plan limit ((p.beginPass loops).walk plan .catchUp plan.order).1

/-- The passes of a frame, each with the state in which it begins. -/
def Graph.passStarts (g : Graph β) (plan : Plan) (override : Option Float)
    (limit : Nat := Graph.passLimit) : List (Pass × Progress β) :=
  (.main, g.opening override) ::
    (Progress.catchUpStarts plan limit
      ((g.opening override).walk plan .main plan.order).1).map fun p => (.catchUp, p)

namespace Progress

open FrameGraph.Graph

variable {plan : Plan} {pass : Pass} {p q : Progress β} {limit : Nat} {id : NodeId}

theorem catchUpStarts_of_none (h : p.graph.loops.catchUp? = none) (limit : Nat) :
    catchUpStarts plan limit p = [] := by
  cases limit <;> simp [catchUpStarts, h]

theorem catchUpStarts_of_walk {loops : LoopTable Float} {next : Progress β}
    (h : p.graph.loops.catchUp? = some loops)
    (hwalk : (p.beginPass loops).walk plan .catchUp plan.order = (next, none)) :
    catchUpStarts plan (limit + 1) p = p.beginPass loops :: catchUpStarts plan limit next := by
  simp [catchUpStarts, h, hwalk]

theorem CaughtUp.starts_loops (h : CaughtUp plan limit p q) :
    (catchUpStarts plan limit p).map (fun start => start.graph.loops) =
      p.graph.loops.catchUpRounds limit := by
  induction h with
  | done settled =>
    rw [catchUpStarts_of_none settled, LoopTable.catchUpRounds_of_none settled, List.map_nil]
  | @pass limit p next q loops behind walked rest ih =>
    have hloops : next.graph.loops = loops := (walk_samePass walked).loops
    rw [catchUpStarts_of_walk behind walked, LoopTable.catchUpRounds, behind, List.map_cons, ih,
      hloops]
    rfl

theorem CaughtUp.starts_walk (h : CaughtUp plan limit p q) :
    ∀ start ∈ catchUpStarts plan limit p,
      SamePass { p.graph with loops := start.graph.loops } start.graph ∧
        ∃ next, start.walk plan .catchUp plan.order = (next, none) := by
  induction h with
  | done settled =>
    rw [catchUpStarts_of_none settled]
    exact fun _ hstart => nomatch hstart
  | @pass limit p next q loops behind walked rest ih =>
    rw [catchUpStarts_of_walk behind walked]
    refine List.forall_mem_cons.mpr ⟨⟨.refl _, next, walked⟩, fun start hstart => ?_⟩
    obtain ⟨hsame, hwalk⟩ := ih start hstart
    exact ⟨((walk_samePass walked).withLoops start.graph.loops).trans hsame, hwalk⟩

theorem walk_count (hsteps : plan.IsLinear plan.order) (hid : .node id ∈ plan.order)
    (hasc : p.report.invocations.Ascending) (h : p.walk plan pass plan.order = (q, none)) :
    q.report.invocations.Ascending ∧ q.report.invocations.count id =
      p.report.invocations.count id +
        if (p.atTurn plan pass (.node id)).graph.runs plan pass id then 1 else 0 := by
  rw [runs_atTurn hsteps h hid, walk_report hsteps h]
  exact FrameReport.count_after hasc hsteps.nodup hid

/-- Catch-up passes count every node in those of them in which it runs at its turn, and their
transfers, and report no node as executed or skipped. -/
theorem CaughtUp.report (h : CaughtUp plan limit p q) (hsteps : plan.IsLinear plan.order)
    (hasc : p.report.invocations.Ascending) :
    q.report.executed = p.report.executed ∧ q.report.skipped = p.report.skipped ∧
      q.report.transfers = p.report.transfers +
        plan.order.countP (fun s => s.node?.isNone) * (catchUpStarts plan limit p).length ∧
      ∀ id, .node id ∈ plan.order → q.report.invocations.count id =
        p.report.invocations.count id + (catchUpStarts plan limit p).countP fun start =>
          (start.atTurn plan .catchUp (.node id)).graph.runs plan .catchUp id := by
  induction h with
  | done settled =>
    rw [catchUpStarts_of_none settled]
    exact ⟨rfl, rfl, rfl, fun _ _ => rfl⟩
  | @pass limit p next q loops behind walked rest ih =>
    have hreport := walk_report hsteps walked
    have hnext : next.report.invocations.Ascending := by
      rw [hreport]
      exact (hasc.count_foldl _ ⟨0⟩).1
    obtain ⟨hexecuted, hskipped, htransfers, hcount⟩ := ih hnext
    rw [catchUpStarts_of_walk behind walked]
    refine ⟨hexecuted.trans (by rw [hreport]; rfl), hskipped.trans (by rw [hreport]; rfl), ?_,
      fun id hid => ?_⟩
    · have hfirst : next.report.transfers =
          p.report.transfers + plan.order.countP fun s => s.node?.isNone := by
        rw [hreport]
        rfl
      rw [htransfers, hfirst, List.length_cons, Nat.mul_succ]
      omega
    · rw [hcount id hid, (walk_count (p := p.beginPass loops) hsteps hid hasc walked).2,
        List.countP_cons]
      refine (Nat.add_assoc _ _ _).trans ?_
      exact congrArg (p.report.invocations.count id + ·) (Nat.add_comm _ _)

end Progress

namespace Graph

variable {g h : Graph β} {plan : Plan} {override : Option Float} {watch : Stopwatch} {limit : Nat}
  {id : NodeId} {report : FrameReport}

/-! ### Frames -/

/-- In every pass of a frame a node finds at its turn the nodes in their places, with the loops of
their round. -/
theorem passStarts_turn (hok : (g.runFrame limit plan override watch).answer = .ok report)
    (hid : .node id ∈ plan.order) {start : Pass × Progress β}
    (hstart : start ∈ g.passStarts plan override limit) :
    SamePass { (g.opening override).graph with loops := start.2.graph.loops }
      (start.2.atTurn plan start.1 (.node id)).graph := by
  obtain ⟨main, last, hwalk, hcaught, _⟩ := runFrame_ok hok
  have hturn {pass : Pass} {p q : Progress β} (h : p.walk plan pass plan.order = (q, none)) :
      SamePass p.graph (p.atTurn plan pass (.node id)).graph := by
    obtain ⟨_, _, hbefore, _⟩ := Progress.walk_atTurn h hid
    exact Progress.walk_samePass hbefore
  rw [passStarts, hwalk] at hstart
  rcases List.mem_cons.mp hstart with rfl | hstart
  · exact hturn hwalk
  · obtain ⟨p, hp, rfl⟩ := List.mem_map.mp hstart
    obtain ⟨hsame, next, hnext⟩ := hcaught.starts_walk p hp
    exact (((Progress.walk_samePass hwalk).withLoops p.graph.loops).trans hsame).trans (hturn hnext)

theorem passStarts_loops (hok : (g.runFrame limit plan override watch).answer = .ok report) :
    (g.passStarts plan override limit).map (fun start => start.2.graph.loops) =
      (g.opening override).graph.loops.rounds limit := by
  obtain ⟨main, last, hwalk, hcaught, _⟩ := runFrame_ok hok
  rw [passStarts, hwalk, List.map_cons, List.map_map, LoopTable.rounds,
    ← (Progress.walk_samePass hwalk).loops, ← hcaught.starts_loops]
  rfl

/-- By how much a loop's count of steps is greater in the second graph. -/
def growth (g h : Graph β) (l : LoopId) : Nat := h.loops.stepsOf l - g.loops.stepsOf l

theorem growth_eq (hok : (g.runFrame limit plan override watch).answer = .ok report) (l : LoopId) :
    g.growth (g.runFrame limit plan override watch).graph l =
      ((g.opening override).graph.loops.frameSteps l limit).length := by
  have hlast := (frame_consecutive hok l).last_eq
  rw [List.length_map] at hlast
  rw [growth, hlast, Nat.add_sub_cancel_left]
  rfl

theorem passStarts_runs (hok : (g.runFrame limit plan override watch).answer = .ok report)
    (hid : .node id ∈ plan.order) {n : Node β} (hn : g.propagate.node? id = some n)
    {start : Pass × Progress β} (hstart : start ∈ g.passStarts plan override limit) :
    (start.2.atTurn plan start.1 (.node id)).graph.runs plan start.1 id =
      (g.isCombinational id ||
        match plan.gateSource? id with
        | some source => (start.2.atTurn plan start.1 (.node id)).graph.readGate source
        | none => (decide (start.1 = .main) && n.subscriptions.isEmpty) ||
          n.subscriptions.any start.2.graph.loops.isTriggered) := by
  have hsame := passStarts_turn hok hid hstart
  have hcombinational := (hsame.isCombinational id).trans
    ((g.opening_sameShape override).isCombinational id)
  have hopening := (g.opening_node? override id).trans hn
  have hnode := hsame.node? id
  change _ = ((g.opening override).graph.node? id).map Node.seated at hnode
  rw [hopening] at hnode
  obtain ⟨m, hm, hseated⟩ := Option.map_eq_some_iff.mp hnode
  have hsubscriptions : m.subscriptions = n.subscriptions :=
    (congrArg Node.subscriptions hseated :)
  rw [runs_eq, hcombinational, hm]
  cases plan.gateSource? id <;>
    simp only [Option.any_some, isDriven, hsubscriptions, hsame.loops]

/-- The report of a frame counts a node in the passes in which it runs at its turn. -/
theorem runFrame_count (hok : (g.runFrame limit plan override watch).answer = .ok report)
    (hsteps : plan.IsLinear plan.order) (hid : .node id ∈ plan.order) :
    report.invocations.count id = (g.passStarts plan override limit).countP fun start =>
      (start.2.atTurn plan start.1 (.node id)).graph.runs plan start.1 id := by
  obtain ⟨main, last, hwalk, hcaught, rfl, _⟩ := runFrame_ok hok
  have hnone : (g.opening override).report.invocations.Ascending := .nil
  obtain ⟨hasc, hmain⟩ := Progress.walk_count hsteps hid hnone hwalk
  obtain ⟨_, _, _, hcount⟩ := hcaught.report hsteps hasc
  have hzero : (g.opening override).report.invocations.count id = 0 := rfl
  rw [hcount id hid, hmain, hzero, passStarts, hwalk, List.countP_cons, List.countP_map,
    Nat.zero_add, Nat.add_comm]
  rfl

theorem length_passStarts (hok : (g.runFrame limit plan override watch).answer = .ok report) :
    (g.passStarts plan override limit).length = 1 + report.catchUpPasses := by
  have hlength := congrArg List.length (passStarts_loops hok)
  rw [List.length_map, LoopTable.rounds, List.length_cons, LoopTable.length_catchUpRounds,
    ← (runFrame_drained hok).2] at hlength
  rw [hlength, Nat.add_comm]

/-- What a frame without a failure reports, in terms of the steps that the loops took in it. -/
structure Accounts (g : Graph β) (plan : Plan) (override : Option Float) (limit : Nat)
    (report : FrameReport) (grown : LoopId → Nat) : Prop where
  catchUpPasses : report.catchUpPasses =
    max 1 ((Finset.range g.loops.size).sup fun i => grown ⟨i⟩) - 1
  transfers : report.transfers = plan.transfers.length * (1 + report.catchUpPasses)
  /-- In plan order. -/
  executed : report.executed.Sublist (plan.order.filterMap Step.node?)
  /-- In plan order. -/
  skipped : report.skipped.Sublist (plan.order.filterMap Step.node?)
  disjoint : report.executed.Disjoint report.skipped
  nodes : (report.executed ++ report.skipped).Perm (plan.order.filterMap Step.node?)
  combinational : ∀ id, (g.node? id).isSome → g.isCombinational id = true →
    report.invocations.count id = 1 + report.catchUpPasses
  /-- Neither gated nor subscribed. -/
  free : ∀ id n, g.propagate.node? id = some n → g.isCombinational id = false →
    g.feeder? id .gate = none → n.subscriptions = [] → report.invocations.count id = 1
  /-- Subscribed and not gated. -/
  driven : ∀ id n, g.propagate.node? id = some n → g.isCombinational id = false →
    g.feeder? id .gate = none → n.subscriptions ≠ [] →
      report.invocations.count id = n.subscriptions.toFinset.sup grown
  /-- Gated by an output: the passes at whose turn that output was true. -/
  gated : ∀ id source, (g.node? id).isSome → g.isCombinational id = false →
    g.feeder? id .gate = some source →
      report.invocations.count id = (g.passStarts plan override limit).countP fun start =>
        (start.2.atTurn plan start.1 (.node id)).graph.readGate source

omit [Behavior β] in
theorem opening_eager (g : Graph β) (override : Option Float) :
    (g.opening override).graph.loops.IsEager ∧
      (g.opening override).graph.loops.loops.length = g.loops.size := by
  rw [opening_loops]
  exact ⟨LoopTable.update_eager _ _, List.length_map _⟩

/-- The busiest loop decides how many passes there are. -/
theorem catchUpPasses_eq (hok : (g.runFrame limit plan override watch).answer = .ok report) :
    report.catchUpPasses = max 1 ((Finset.range g.loops.size).sup fun i =>
      g.growth (g.runFrame limit plan override watch).graph ⟨i⟩) - 1 := by
  obtain ⟨heager, hsize⟩ := g.opening_eager override
  have hrounds := congrArg List.length (passStarts_loops hok)
  rw [List.length_map, length_passStarts hok, heager.length_rounds limit, hsize] at hrounds
  simp only [growth_eq hok]
  omega

def mainRuns (g : Graph β) (plan : Plan) (override : Option Float) (id : NodeId) : Bool :=
  ((g.opening override).atTurn plan .main (.node id)).graph.runs plan .main id

/-- A main pass that is complete divides the nodes by whether they ran at their turns. -/
theorem walk_decided (hp : g.RunBy plan) {last : Progress β}
    (hwalk : (g.opening override).walk plan .main plan.order = (last, none)) :
    (last.report.executed ++ last.report.skipped).Perm (plan.order.filterMap Step.node?) ∧
      ∀ n, .node n ∈ plan.order →
        (n ∈ last.report.executed ↔ g.mainRuns plan override n = true) ∧
          (n ∈ last.report.skipped ↔ g.mainRuns plan override n = false) := by
  have hnone : (g.opening override).report.executed = [] ∧
      (g.opening override).report.skipped = [] := ⟨rfl, rfl⟩
  rw [Progress.walk_report hp.isLinear hwalk]
  refine ⟨List.filter_append_perm _ _, fun n hn => ?_⟩
  rw [FrameReport.mem_after.1, FrameReport.mem_after.2, mainRuns,
    Progress.runs_atTurn hp.isLinear hwalk hn, hnone.1, hnone.2]
  simp [hn]

theorem walk_ascending (hsteps : plan.IsLinear plan.order) {last : Progress β}
    (hwalk : (g.opening override).walk plan .main plan.order = (last, none)) :
    last.report.invocations.Ascending := by
  rw [Progress.walk_report hsteps hwalk]
  exact (Tally.Ascending.count_foldl .nil _ ⟨0⟩).1

/-- The main pass divides the nodes into those that are executed and those that are skipped; all
passes make all transfers. -/
theorem runFrame_reported (hok : (g.runFrame limit plan override watch).answer = .ok report)
    (hp : g.RunBy plan) : ∃ runs : NodeId → Bool,
      report.executed = (plan.order.filterMap Step.node?).filter runs ∧
      report.skipped = ((plan.order.filterMap Step.node?).filter fun id => !runs id) ∧
      report.transfers = plan.transfers.length * (1 + report.catchUpPasses) := by
  have hlength := length_passStarts hok
  obtain ⟨main, last, hwalk, hcaught, hreport, _⟩ := runFrame_ok hok
  have hmain := Progress.walk_report hp.isLinear hwalk
  obtain ⟨hexecuted, hskipped, htransfers, _⟩ :=
    hcaught.report hp.isLinear (walk_ascending hp.isLinear hwalk)
  refine ⟨main.graph.runs plan .main, ?_, ?_, ?_⟩
  · rw [hreport, hexecuted, hmain]
    rfl
  · rw [hreport, hskipped, hmain]
    rfl
  · have hpasses : (Progress.catchUpStarts plan limit main).length = report.catchUpPasses := by
      rw [passStarts, hwalk, List.length_cons, List.length_map] at hlength
      dsimp only at hlength
      omega
    have hfirst : main.report.transfers = plan.transfers.length := by
      rw [hmain, ← hp.countP_transfers]
      exact Nat.zero_add _
    rw [hreport, htransfers, hfirst, hp.countP_transfers, hpasses, ← hreport, Nat.mul_add,
      Nat.mul_one]

/-- The passes that count a node: all if it is combinational, else those at whose turn its gate is
open or, without a gate, those that drive it. -/
theorem count_eq (hok : (g.runFrame limit plan override watch).answer = .ok report)
    (hp : g.RunBy plan) {n : Node β} (hn : g.propagate.node? id = some n) :
    report.invocations.count id = (g.passStarts plan override limit).countP fun start =>
      g.isCombinational id || (g.feeder? id .gate).elim
        ((decide (start.1 = .main) && n.subscriptions.isEmpty) ||
          n.subscriptions.any start.2.graph.loops.isTriggered)
        (start.2.atTurn plan start.1 (.node id)).graph.readGate := by
  have hid : .node id ∈ plan.order := hp.node_mem.mpr (by
    rw [← (propagate_sameShape g).node?_isSome, hn]
    rfl)
  rw [runFrame_count hok hp.isLinear hid]
  refine List.countP_congr fun start hstart => ?_
  rw [passStarts_runs hok hid hn hstart, hp.gate]
  cases g.feeder? id .gate <;> rfl

theorem count_of_combinational (hok : (g.runFrame limit plan override watch).answer = .ok report)
    (hp : g.RunBy plan) {n : Node β} (hn : g.propagate.node? id = some n)
    (hcombinational : g.isCombinational id = true) :
    report.invocations.count id = 1 + report.catchUpPasses := by
  rw [count_eq hok hp hn, hcombinational, ← length_passStarts hok, List.countP_eq_length]
  exact fun _ _ => Bool.true_or _

theorem count_of_free (hok : (g.runFrame limit plan override watch).answer = .ok report)
    (hp : g.RunBy plan) {n : Node β} (hn : g.propagate.node? id = some n)
    (hsequential : g.isCombinational id = false) (hgate : g.feeder? id .gate = none)
    (hnone : n.subscriptions = []) : report.invocations.count id = 1 := by
  rw [count_eq hok hp hn, hsequential, hgate, hnone, passStarts, List.countP_cons, List.countP_map]
  simp [Function.comp_def]

/-- A node that loops drive is counted as often as the busiest of them stepped. -/
theorem count_of_driven (hok : (g.runFrame limit plan override watch).answer = .ok report)
    (hp : g.RunBy plan) {n : Node β} (hn : g.propagate.node? id = some n)
    (hsequential : g.isCombinational id = false) (hgate : g.feeder? id .gate = none)
    (hsome : n.subscriptions ≠ []) : report.invocations.count id =
      n.subscriptions.toFinset.sup (g.growth (g.runFrame limit plan override watch).graph) := by
  have hdriven : report.invocations.count id =
      (g.passStarts plan override limit).countP fun start =>
        n.subscriptions.any start.2.graph.loops.isTriggered := by
    rw [count_eq hok hp hn, hsequential, hgate]
    simp [List.isEmpty_eq_false_iff.mpr hsome]
  have hrounds : (g.passStarts plan override limit).countP (fun start =>
      n.subscriptions.any start.2.graph.loops.isTriggered) =
      ((g.opening override).graph.loops.rounds limit).countP fun t =>
        n.subscriptions.any t.isTriggered := by
    rw [← passStarts_loops hok, List.countP_map]
    rfl
  obtain ⟨heager, _⟩ := g.opening_eager override
  rw [hdriven, hrounds, countP_any_eq_sup _ fun l _ => heager.rounds_pairwise limit l]
  refine Finset.sup_congr rfl fun l _ => ?_
  rw [growth_eq hok, LoopTable.length_frameSteps]

theorem count_of_gated (hok : (g.runFrame limit plan override watch).answer = .ok report)
    (hp : g.RunBy plan) {n : Node β} (hn : g.propagate.node? id = some n)
    (hsequential : g.isCombinational id = false) {source : Source}
    (hgate : g.feeder? id .gate = some source) :
    report.invocations.count id = (g.passStarts plan override limit).countP fun start =>
      (start.2.atTurn plan start.1 (.node id)).graph.readGate source := by
  rw [count_eq hok hp hn, hsequential, hgate]
  simp only [Bool.false_or, Option.elim_some]

/-- The accounts of every frame that a compiled graph executes without a failure. -/
theorem Reachable.frame_accounts (hg : Reachable g) (hplan : g.plan = some plan)
    (hok : (g.execute override watch limit).answer = .ok report) :
    g.Accounts plan override limit report (g.growth (g.execute override watch limit).graph) := by
  obtain ⟨installed, hinstalled, hcurrent, hrun⟩ := execute_ok hok
  obtain rfl : plan = installed := Option.some.inj (hplan.symm.trans hinstalled)
  rw [hrun] at hok ⊢
  have hp := hg.runBy hplan hcurrent
  have hrefreshed {id : NodeId} (h : (g.node? id).isSome) : ∃ n, g.propagate.node? id = some n :=
    Option.isSome_iff_exists.mp ((propagate_sameShape g).node?_isSome id ▸ h)
  obtain ⟨runs, hexecuted, hskipped, htransfers⟩ := runFrame_reported hok hp
  constructor
  case catchUpPasses => exact catchUpPasses_eq hok
  case transfers => exact htransfers
  case executed => exact hexecuted ▸ List.filter_sublist
  case skipped => exact hskipped ▸ List.filter_sublist
  case disjoint =>
    intro id hin hout
    rw [hexecuted] at hin
    rw [hskipped] at hout
    have hran := (List.mem_filter.mp hin).2
    have hpassed := (List.mem_filter.mp hout).2
    rw [hran] at hpassed
    cases hpassed
  case nodes =>
    rw [hexecuted, hskipped]
    exact List.filter_append_perm _ _
  case combinational =>
    intro id h hcombinational
    obtain ⟨n, hn⟩ := hrefreshed h
    exact count_of_combinational hok hp hn hcombinational
  case free => exact fun id n hn => count_of_free hok hp hn
  case driven => exact fun id n hn => count_of_driven hok hp hn
  case gated =>
    intro id source h hsequential hgate
    obtain ⟨n, hn⟩ := hrefreshed h
    exact count_of_gated hok hp hn hsequential hgate

/-- In a quarter of a second the loop of the relay takes two steps: there is one catch-up pass, the
pass that the loop drives runs twice and the one before it once. -/
theorem relay_accounts : ∃ plan report, relay.plan = some plan ∧
    (relay.execute (some 0.25)).answer = .ok report ∧
    relay.growth (relay.execute (some 0.25)).graph ⟨0⟩ = 2 ∧ report.catchUpPasses = 1 ∧
    report.invocations.count ⟨0⟩ = 1 ∧ report.invocations.count ⟨1⟩ = 2 := by
  obtain ⟨report, hok, _⟩ := relay_ok
  obtain ⟨plan, hplan, _⟩ := execute_ok hok
  have haccounts := relay_reachable.frame_accounts hplan hok
  have hgrown : relay.growth (relay.execute (some 0.25)).graph ⟨0⟩ = 2 := by decide +kernel
  have hsize : relay.loops.size = 1 := by decide +kernel
  have hnode (id : NodeId) (subscriptions : List LoopId)
      (h : (relay.propagate.node? id).map Node.subscriptions = some subscriptions) :
      ∃ n, relay.propagate.node? id = some n ∧ n.subscriptions = subscriptions :=
    Option.map_eq_some_iff.mp h
  obtain ⟨source, hsource, hfree⟩ := hnode ⟨0⟩ [] (by decide +kernel)
  obtain ⟨solver, hsolver, hdriven⟩ := hnode ⟨1⟩ [⟨0⟩] (by decide +kernel)
  refine ⟨plan, report, hplan, hok, hgrown, ?_, ?_, ?_⟩
  · rw [haccounts.catchUpPasses, hsize, Finset.range_one, Finset.sup_singleton, hgrown]
    rfl
  · exact haccounts.free ⟨0⟩ source hsource (by decide +kernel) (by decide +kernel) hfree
  · have hsome : solver.subscriptions ≠ [] := by
      rw [hdriven]
      exact List.cons_ne_nil _ _
    rw [haccounts.driven ⟨1⟩ solver hsolver (by decide +kernel) (by decide +kernel) hsome, hdriven]
    simpa using hgrown

end Graph

end FrameGraph
