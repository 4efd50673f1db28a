import FrameGraph.Proofs.Frame.Accounting
import FrameGraph.Proofs.Loop.Settling

/-! What the gates of a graph say after a frame. The report lists the nodes that ran in the main
pass; a query reads the gate as the frame has left it. Between them are the catch-up passes.
They give the loops their flags back, so of a node without a gate the query tells what the report
does. The outputs that gates read keep what the last pass wrote, so of a gated node the query
tells what its gate was at its turn in that pass. -/

namespace FrameGraph

variable {β : Type}

namespace Progress

open FrameGraph.Graph

variable [Behavior β] {plan : Plan} {pass : Pass} {p q : Progress β} {limit : Nat}

theorem CaughtUp.samePass (h : CaughtUp plan limit p q) :
    SamePass { p.graph with loops := q.graph.loops } q.graph := by
  induction h with
  | done settled => exact .refl _
  | @pass limit p next q loops behind walked rest ih =>
    exact ((walk_samePass walked).withLoops q.graph.loops).trans ih

/-- The last of a pass and the catch-up passes after it leads to where they end. -/
theorem CaughtUp.last_walk (h : CaughtUp plan limit p q) {start : Progress β}
    (hwalk : start.walk plan pass plan.order = (p, none)) :
    ∃ last, ((pass, start) ::
        (catchUpStarts plan limit p).map fun start => (.catchUp, start)).getLast? = some last ∧
      last.2.walk plan last.1 plan.order = (q, none) := by
  induction h generalizing pass start with
  | done settled =>
    rw [catchUpStarts_of_none settled]
    exact ⟨(pass, start), rfl, hwalk⟩
  | pass behind walked rest ih =>
    rw [catchUpStarts_of_walk behind walked, List.map_cons, List.getLast?_cons_cons]
    exact ih walked

end Progress

namespace Graph

variable [Behavior β] {g : Graph β} {plan : Plan} {override : Option Float} {watch : Stopwatch}
  {limit : Nat} {id : NodeId} {report : FrameReport}

/-- A frame ends where its last pass does, but for the flags and the measured times of the loops. -/
theorem passStarts_last (hok : (g.runFrame limit plan override watch).answer = .ok report) :
    ∃ start last, (g.passStarts plan override limit).getLast? = some start ∧
      start.2.walk plan start.1 plan.order = (last, none) ∧
      (g.runFrame limit plan override watch).graph = last.settled watch := by
  obtain ⟨main, last, hwalk, hcaught, _, hgraph, _⟩ := runFrame_ok hok
  obtain ⟨start, hstart, hlast⟩ := hcaught.last_walk hwalk
  refine ⟨start, last, ?_, hlast, hgraph⟩
  rw [passStarts, hwalk]
  exact hstart

theorem mem_executed (hok : (g.runFrame limit plan override watch).answer = .ok report)
    (hp : g.RunBy plan) (hid : .node id ∈ plan.order) :
    id ∈ report.executed ↔ g.mainRuns plan override id = true := by
  obtain ⟨main, last, hwalk, hcaught, rfl, _⟩ := runFrame_ok hok
  rw [(hcaught.report hp.isLinear (walk_ascending hp.isLinear hwalk)).1]
  exact ((walk_decided hp hwalk).2 id hid).1

theorem runFrame_isTriggered (hok : (g.runFrame limit plan override watch).answer = .ok report)
    (l : LoopId) : (g.runFrame limit plan override watch).graph.loops.isTriggered l =
      (g.opening override).graph.loops.isTriggered l := by
  rw [LoopTable.isTriggered_of_untimed (runFrame_loops hok), opening_loops]
  exact LoopTable.isTriggered_settle_drain _ _ _ _

theorem runFrame_subscriptions (hok : (g.runFrame limit plan override watch).answer = .ok report)
    {n : Node β} (hn : g.propagate.node? id = some n) :
    ∃ m, (g.runFrame limit plan override watch).graph.node? id = some m ∧
      m.subscriptions = n.subscriptions := by
  obtain ⟨main, last, hwalk, hcaught, _, hgraph, _⟩ := runFrame_ok hok
  have hsame := ((Progress.walk_samePass hwalk).withLoops last.graph.loops).trans hcaught.samePass
  have hopening := (g.opening_node? override id).trans hn
  have hnode := hsame.node? id
  change _ = ((g.opening override).graph.node? id).map Node.seated at hnode
  rw [hopening] at hnode
  obtain ⟨m, hm, hseated⟩ := Option.map_eq_some_iff.mp hnode
  rw [hgraph]
  exact ⟨m, hm, (congrArg Node.subscriptions hseated :)⟩

theorem runFrame_isOpen (hplan : g.plan = some plan) (id : NodeId) :
    (g.runFrame limit plan override watch).graph.isOpen id =
      (g.runFrame limit plan override watch).graph.gateUnder (some plan) id := by
  rw [isOpen, (g.runFrame_sameShape limit plan override watch).plan, hplan]

/-! ### Nodes without a gate -/

/-- Of a node without a gate the query tells what the report does. -/
theorem isOpen_of_ungated (hok : (g.runFrame limit plan override watch).answer = .ok report)
    (hp : g.RunBy plan) (hplan : g.plan = some plan) {n : Node β}
    (hn : g.propagate.node? id = some n) (hsequential : g.isCombinational id = false)
    (hgate : g.feeder? id .gate = none) :
    (g.runFrame limit plan override watch).graph.isOpen id = true ↔ id ∈ report.executed := by
  have hid : .node id ∈ plan.order := hp.node_mem.mpr (by
    rw [← (propagate_sameShape g).node?_isSome, hn]
    rfl)
  have hsource : plan.gateSource? id = none := (hp.gate id).trans hgate
  have hmain : (Pass.main, g.opening override) ∈ g.passStarts plan override limit :=
    List.mem_cons_self
  obtain ⟨m, hm, hsubscriptions⟩ := runFrame_subscriptions hok hn
  rw [mem_executed hok hp hid, mainRuns, passStarts_runs hok hid hn hmain, hsequential,
    runFrame_isOpen hplan, gateUnder]
  simp [hsource, hm, isDriven, hsubscriptions, runFrame_isTriggered hok]

/-! ### Gated nodes -/

/-- What the gate of a node reads at the node's turns, pass after pass. -/
def gateReads (g : Graph β) (plan : Plan) (override : Option Float) (id : NodeId)
    (source : Source) (limit : Nat := passLimit) : List Bool :=
  (g.passStarts plan override limit).map fun start =>
    (start.2.atTurn plan start.1 (.node id)).graph.readGate source

omit [Behavior β] in
theorem runs_of_gated {h : Graph β} {pass : Pass} {source : Source}
    (hsource : plan.gateSource? id = some source) (hsequential : h.isCombinational id = false) :
    h.runs plan pass id = h.readGate source := by
  rw [runs_eq, hsequential, hsource, Bool.false_or]

/-- The report tells what the gate of a node was at its turn in the main pass. -/
theorem mem_executed_of_gated (hok : (g.runFrame limit plan override watch).answer = .ok report)
    (hp : g.RunBy plan) (hid : .node id ∈ plan.order) (hsequential : g.isCombinational id = false)
    {source : Source} (hsource : plan.gateSource? id = some source) :
    id ∈ report.executed ↔ (g.gateReads plan override id source limit).head? = some true := by
  have hmain : (Pass.main, g.opening override) ∈ g.passStarts plan override limit :=
    List.mem_cons_self
  have hturn := ((passStarts_turn hok hid hmain).isCombinational id).trans
    ((g.opening_sameShape override).isCombinational id)
  rw [mem_executed hok hp hid, mainRuns, runs_of_gated hsource (hturn.trans hsequential)]
  simp [gateReads, passStarts]

/-- The query tells what the gate of a node was at its turn in the last pass. -/
theorem isOpen_of_gated (hok : (g.runFrame limit plan override watch).answer = .ok report)
    (hp : g.RunBy plan) (hplan : g.plan = some plan) (hid : .node id ∈ plan.order)
    (hsequential : g.isCombinational id = false) {source : Source}
    (hsource : plan.gateSource? id = some source) :
    (g.runFrame limit plan override watch).graph.isOpen id = true ↔
      (g.gateReads plan override id source limit).getLast? = some true := by
  obtain ⟨start, last, hstart, hwalk, hgraph⟩ := passStarts_last hok
  have hturn := ((passStarts_turn hok hid (List.mem_of_getLast? hstart)).isCombinational id).trans
    ((g.opening_sameShape override).isCombinational id)
  have hend : last.graph.isCombinational id = false := by
    have hafter := (g.runFrame_sameShape limit plan override watch).isCombinational id
    rw [hgraph] at hafter
    exact hafter.trans hsequential
  -- the gate reads at the end of the last pass what it read at the turn
  have hread := Progress.runs_atTurn hp.isLinear hwalk hid
  rw [runs_of_gated hsource (hturn.trans hsequential), runs_of_gated hsource hend] at hread
  have hopen : (g.runFrame limit plan override watch).graph.isOpen id =
      last.graph.readGate source := by
    rw [runFrame_isOpen hplan, hgraph, gateUnder, Option.bind_some, hsource]
    rfl
  rw [hopen, ← hread, gateReads, List.getLast?_map, hstart]
  simp

/-! ### Frames -/

/-- After a frame the query tells of a node that is not combinational whether it ran in the main
pass, if no gate is connected to it or no catch-up pass took place. Of a gated node it tells what
the gate read at its turn in the last pass, where the report tells what it read in the first. -/
theorem Reachable.query_after_frame (hg : Reachable g) (hplan : g.plan = some plan)
    (hok : (g.execute override watch limit).answer = .ok report) (hlive : (g.node? id).isSome)
    (hsequential : g.isCombinational id = false) :
    (g.feeder? id .gate = none ∨ report.catchUpPasses = 0 →
      ((g.execute override watch limit).graph.isOpen id = true ↔ id ∈ report.executed)) ∧
    ∀ source, g.feeder? id .gate = some source →
      (g.gateReads plan override id source limit).length = 1 + report.catchUpPasses ∧
      (id ∈ report.executed ↔ (g.gateReads plan override id source limit).head? = some true) ∧
      ((g.execute override watch limit).graph.isOpen id = true ↔
        (g.gateReads plan override id source limit).getLast? = some true) := by
  obtain ⟨installed, hinstalled, hcurrent, hrun⟩ := execute_ok hok
  obtain rfl : plan = installed := Option.some.inj (hplan.symm.trans hinstalled)
  rw [hrun] at hok ⊢
  have hp := hg.runBy hplan hcurrent
  have hid : .node id ∈ plan.order := hp.node_mem.mpr hlive
  have hgated (source : Source) (hgate : g.feeder? id .gate = some source) :
      (g.gateReads plan override id source limit).length = 1 + report.catchUpPasses ∧
      (id ∈ report.executed ↔ (g.gateReads plan override id source limit).head? = some true) ∧
      ((g.runFrame limit plan override watch).graph.isOpen id = true ↔
        (g.gateReads plan override id source limit).getLast? = some true) := by
    have hsource : plan.gateSource? id = some source := (hp.gate id).trans hgate
    refine ⟨?_, mem_executed_of_gated hok hp hid hsequential hsource,
      isOpen_of_gated hok hp hplan hid hsequential hsource⟩
    rw [gateReads, List.length_map, length_passStarts hok]
  refine ⟨fun hcase => ?_, hgated⟩
  cases hgate : g.feeder? id .gate with
  | none =>
    obtain ⟨n, hn⟩ := Option.isSome_iff_exists.mp ((propagate_sameShape g).node?_isSome id ▸ hlive)
    exact isOpen_of_ungated hok hp hplan hn hsequential hgate
  | some source =>
    obtain ⟨hlength, hfirst, hlast⟩ := hgated source hgate
    -- the first turn is the last one
    have hnone : report.catchUpPasses = 0 := hcase.resolve_left (by simp [hgate])
    rw [hnone] at hlength
    obtain ⟨read, hreads⟩ := List.length_eq_one_iff.mp hlength
    rw [hlast, hfirst, hreads]
    rfl

/-- A pass gated by the flag of a loop that runs every frame, beside a loop of eight steps a second.
-/
def strobe : Graph Script :=
  let looped := (Command.run ({} : Graph Script)
    (.registerLoop { name := "physics", timestep := 0.125, cap := 0.25 })).graph
  let both := (Command.run looped
    (.registerLoop { name := "render", timestep := 0, cap := 0.25 })).graph
  let typed := (Command.run both (.registerType passType)).graph
  let draw := (Command.run typed (.create ⟨3⟩ "draw")).graph
  let bridge := (Command.run draw (.addBridge "rate" ⟨1⟩)).graph
  let gated := (Command.run bridge (.connect ⟨⟨1⟩, .data 0, ⟨0⟩, .gate⟩)).graph
  (Command.run gated .compile).graph

theorem strobe_reachable : Reachable strobe :=
  (((((((Reachable.new _ _).run _).run _).run _).run _).run _).run _).run _

theorem strobe_ok : ∃ report, (strobe.execute (some 0.25)).answer = .ok report ∧
    report.catchUpPasses = 1 ∧ ⟨0⟩ ∈ report.executed := by
  have hreported : (strobe.execute (some 0.25)).answer.toOption.any (fun report =>
      report.catchUpPasses == 1 && report.executed.contains ⟨0⟩) = true := by decide +kernel
  cases hanswer : (strobe.execute (some 0.25)).answer with
  | error e =>
    rw [hanswer] at hreported
    cases hreported
  | ok report =>
    rw [hanswer] at hreported
    exact ⟨report, rfl, by simpa [Except.toOption] using hreported⟩

/-- In a quarter of a second the gate of the pass reads true in the main pass and false in the
catch-up pass, which is not its loop's. -/
theorem strobe_reads : ∃ plan report, strobe.plan = some plan ∧
    (strobe.execute (some 0.25)).answer = .ok report ∧
    strobe.feeder? ⟨0⟩ .gate = some (.output ⟨1⟩ 0) ∧
    (strobe.gateReads plan (some 0.25) ⟨0⟩ (.output ⟨1⟩ 0)).length = 2 ∧
    (strobe.gateReads plan (some 0.25) ⟨0⟩ (.output ⟨1⟩ 0)).head? = some true ∧
    (strobe.gateReads plan (some 0.25) ⟨0⟩ (.output ⟨1⟩ 0)).getLast? ≠ some true := by
  obtain ⟨report, hok, hpasses, hran⟩ := strobe_ok
  obtain ⟨plan, hplan, _⟩ := execute_ok hok
  have hgate : strobe.feeder? ⟨0⟩ .gate = some (.output ⟨1⟩ 0) := by decide +kernel
  have hsequential : strobe.isCombinational ⟨0⟩ = false := by decide +kernel
  obtain ⟨_, hgated⟩ :=
    strobe_reachable.query_after_frame hplan hok (by decide +kernel) hsequential
  obtain ⟨hlength, hfirst, hlast⟩ := hgated _ hgate
  have hclosed : ¬(strobe.execute (some 0.25)).graph.isOpen ⟨0⟩ = true := by decide +kernel
  exact ⟨plan, report, hplan, hok, hgate, by rw [hlength, hpasses], hfirst.mp hran,
    fun h => hclosed (hlast.mpr h)⟩

/-- So after the frame the query denies a pass that the report lists as executed. -/
theorem strobe_denied : Reachable strobe ∧ (strobe.node? ⟨0⟩).isSome = true ∧
    strobe.isCombinational ⟨0⟩ = false ∧ ∃ report,
      (strobe.execute (some 0.25)).answer = .ok report ∧
      ¬((strobe.execute (some 0.25)).graph.isOpen ⟨0⟩ = true ↔ ⟨0⟩ ∈ report.executed) := by
  obtain ⟨report, hok, _, hran⟩ := strobe_ok
  have hclosed : ¬(strobe.execute (some 0.25)).graph.isOpen ⟨0⟩ = true := by decide +kernel
  exact ⟨strobe_reachable, by decide +kernel, by decide +kernel, report, hok,
    fun h => hclosed (h.mpr hran)⟩

end Graph

end FrameGraph
