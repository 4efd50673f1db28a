import FrameGraph.Proofs.Frame.Passes
import FrameGraph.Proofs.Graph.Sweeps
import FrameGraph.Proofs.Loop.Steps

/-! The turns of a node that follows one loop. In every pass it runs exactly when the loop is
triggered, and then once and on the step that the loop is on; passes in which other loops
catch up leave it alone. So the steps that the node sees over the passes of a frame are
those that the loop takes, in their order. -/

namespace FrameGraph

variable {β : Type}

def Event.turn? (id : NodeId) : Event → Option Timing
  | .invoked context => if context.node = id then some context.timing else none
  | _ => none

/-- The turns of a node among some entries of a journal. -/
def turns (id : NodeId) (events : List Event) : List Timing := events.filterMap (Event.turn? id)

theorem turns_append (id : NodeId) (first rest : List Event) :
    turns id (first ++ rest) = turns id first ++ turns id rest :=
  List.filterMap_append

/-- What a turn shows of the step that it is taken on: the loop, the number and the delta. -/
def Timing.step (t : Timing) : Option LoopId × Nat × Float := (t.loop, t.steps, t.delta)

def turnOn (l : LoopId) (pass : Pass) (step : Nat × Float) : Timing :=
  ⟨some l, step.2, step.1, pass = .catchUp⟩

namespace Graph

/-- A node is live, not combinational and subscribed to one loop. -/
structure Follows (g : Graph β) (id : NodeId) (l : LoopId) : Prop where
  subscribed : ∃ n, g.node? id = some n ∧ n.subscriptions = [l]
  sequential : g.isCombinational id = false

variable {g h : Graph β} {id : NodeId} {l : LoopId} {plan : Plan}

theorem Follows.of_samePass (hf : g.Follows id l) (hs : SamePass g h) : h.Follows id l := by
  have hnode := hs.node? id
  obtain ⟨n, hn, hsubscribed⟩ := hf.subscribed
  rw [hn] at hnode
  obtain ⟨m, hm, hmn⟩ := Option.map_eq_some_iff.mp hnode
  have hsubscriptions : m.subscriptions = n.subscriptions := (congrArg Node.subscriptions hmn :)
  have htype : m.type = n.type := (congrArg Node.type hmn :)
  refine ⟨⟨m, hm, hsubscriptions.trans hsubscribed⟩, ?_⟩
  rw [← hf.sequential, isCombinational, isCombinational, typeOf?, typeOf?, hm, hn]
  simp only [Option.bind_some, type?, hs.types, htype]

theorem Follows.isDriven (hf : g.Follows id l) :
    (g.node? id).any g.isDriven = g.loops.isTriggered l := by
  obtain ⟨n, hn, hsubscribed⟩ := hf.subscribed
  simp [hn, Graph.isDriven, hsubscribed]

theorem Follows.runs (hf : g.Follows id l) (hgate : plan.gateSource? id = none) (pass : Pass) :
    g.runs plan pass id = g.loops.isTriggered l := by
  rw [Graph.runs.eq_def, hf.sequential, Bool.false_or, ← hf.isDriven]
  cases pass with
  | main =>
    obtain ⟨n, hn, hsubscribed⟩ := hf.subscribed
    simp [gateUnder, hgate, hn, hsubscribed]
  | catchUp => simp only [hgate]

end Graph

namespace Progress

open FrameGraph.Graph

variable {p q : Progress β} {pass : Pass} {id : NodeId} {l : LoopId} {plan : Plan}

theorem timing_follows {node : Node β} (hlive : p.graph.node? id = some node)
    (hf : p.graph.Follows id l) {step : Nat × Float} (hstep : p.graph.loops.step? l = some step) :
    p.timing pass node = turnOn l pass step := by
  obtain ⟨n, hn, hsubscribed⟩ := hf.subscribed
  obtain rfl : node = n := Option.some.inj (hlive.symm.trans hn)
  obtain ⟨loop, hloop, htriggered, rfl⟩ :=
    LoopTable.mem_step?.mp (Option.mem_toList.mpr hstep)
  have hdriving : p.graph.drivingLoop? node = some l := by
    simp [drivingLoop?, hsubscribed, LoopTable.isTriggered, hloop, htriggered]
  simp [timing, hdriving, hloop, turnOn]

variable [Behavior β]

def turns (p : Progress β) (id : NodeId) : List Timing := FrameGraph.turns id p.journal.toList

omit [Behavior β] in
theorem turns_completed (p : Progress β) (id : NodeId) :
    FrameGraph.turns id (p.journal.push (.completed p.report)).toList = p.turns id := by
  simp [Progress.turns, FrameGraph.turns, Event.turn?]

theorem Stepped.turns {s : Step} (h : Stepped plan pass p s q) :
    q.turns id = p.turns id ++ FrameGraph.turns id (p.recorded? plan pass s).toList :=
  h.filterMap_journal _ (fun _ => rfl) fun _ _ _ => rfl

theorem Stepped.turns_other {s : Step} (h : Stepped plan pass p s q) (hs : s ≠ .node id) :
    q.turns id = p.turns id := by
  rw [h.turns]
  apply List.append_right_eq_self.mpr
  cases s with
  | transfer t => rfl
  | node other =>
    have hother : other ≠ id := fun heq => hs (congrArg Step.node heq)
    simp only [recorded?]
    split
    · cases p.graph.node? other with
      | none => rfl
      | some node => simp [FrameGraph.turns, Event.turn?, context, hother]
    · rfl

theorem Stepped.turns_own (h : Stepped plan pass p (.node id) q) (hf : p.graph.Follows id l)
    (hgate : plan.gateSource? id = none) :
    q.turns id = p.turns id ++ ((p.graph.loops.step? l).map (turnOn l pass)).toList := by
  have hruns := hf.runs hgate pass
  rw [h.turns]
  congr 1
  cases hstep : p.graph.loops.step? l with
  | none =>
    rw [← LoopTable.step?_isSome, hstep] at hruns
    simp [recorded?, hruns, FrameGraph.turns]
  | some step =>
    rw [← LoopTable.step?_isSome, hstep] at hruns
    obtain ⟨n, hn, _⟩ := hf.subscribed
    have htiming : (p.context plan pass id n).timing = turnOn l pass step :=
      timing_follows hn hf hstep
    have hnode : (p.context plan pass id n).node = id := rfl
    simp [recorded?, hruns, hn, FrameGraph.turns, Event.turn?, htiming, hnode]

/-! ### Walks -/

variable {steps : List Step}

theorem walk_turns_other (h : p.walk plan pass steps = (q, none)) (hid : .node id ∉ steps) :
    q.turns id = p.turns id := by
  induction steps generalizing p with
  | nil =>
    obtain ⟨rfl, _⟩ := Prod.mk.inj h
    rfl
  | cons s rest ih =>
    obtain ⟨next, hstep, hrest⟩ := walk_cons h
    rw [List.mem_cons, not_or] at hid
    rw [ih hrest hid.2, hstep.turns_other fun heq => hid.1 heq.symm]

/-- In a walk over steps that name the node once it takes the one turn that is due. -/
theorem walk_turns (h : p.walk plan pass steps = (q, none)) (hnodup : steps.Nodup)
    (hid : .node id ∈ steps) (hf : p.graph.Follows id l) (hgate : plan.gateSource? id = none) :
    q.turns id = p.turns id ++ ((p.graph.loops.step? l).map (turnOn l pass)).toList := by
  induction steps generalizing p with
  | nil => cases hid
  | cons s rest ih =>
    obtain ⟨next, hstep, hrest⟩ := walk_cons h
    obtain ⟨hfresh, hnodup⟩ := List.nodup_cons.mp hnodup
    by_cases hs : s = .node id
    · subst hs
      rw [walk_turns_other hrest hfresh, hstep.turns_own hf hgate]
    · have hmem : .node id ∈ rest := (List.mem_cons.mp hid).resolve_left fun heq => hs heq.symm
      rw [ih hrest hnodup hmem (hf.of_samePass hstep.samePass), hstep.turns_other hs,
        hstep.samePass.loops]

/-- Over the catch-up passes the node takes a turn on every step that its loop takes. -/
theorem CaughtUp.turns {limit : Nat} (h : CaughtUp plan limit p q) (hnodup : plan.order.Nodup)
    (hid : .node id ∈ plan.order) (hf : p.graph.Follows id l)
    (hgate : plan.gateSource? id = none) :
    q.turns id = p.turns id ++ (p.graph.loops.catchUpSteps l limit).map (turnOn l .catchUp) := by
  induction h with
  | @done limit p settled =>
    cases limit <;> simp [LoopTable.catchUpSteps, settled]
  | @pass limit p next q loops behind walked rest ih =>
    have hbegun : (p.beginPass loops).graph.Follows id l := ⟨hf.subscribed, hf.sequential⟩
    have hsame := walk_samePass walked
    have hloops : next.graph.loops = loops := hsame.loops
    have hturns : next.turns id =
        p.turns id ++ ((loops.step? l).map (turnOn l .catchUp)).toList :=
      walk_turns walked hnodup hid hbegun hgate
    rw [ih (hbegun.of_samePass hsame), hturns, hloops, LoopTable.catchUpSteps, behind,
      List.append_assoc, List.map_append, Option.toList_map]

end Progress

/-! ### Frames -/

namespace Graph

variable {g h : Graph β} {id : NodeId} {l : LoopId} {plan : Plan} {override : Option Float}
  {watch : Stopwatch} {limit : Nat}

theorem opening_slots (g : Graph β) (override : Option Float) :
    (g.opening override).graph.slots = g.propagate.slots := by
  have htiming (loops : LoopTable Float) (timer : Timer) (frame : Nat) :
      ({ g with loops, timer, frame } : Graph β).propagate.slots = g.propagate.slots := by
    have hsame : ({ g with loops, timer, frame } : Graph β).subscribed = g.subscribed :=
      subscribed_congr rfl (fun _ => rfl) rfl
    rw [propagate, propagate, hsame]
  cases override <;> exact htiming _ _ _

theorem opening_node? (g : Graph β) (override : Option Float) (id : NodeId) :
    (g.opening override).graph.node? id = g.propagate.node? id := by
  rw [node?, node?, opening_slots]

theorem Follows.opening (hf : g.propagate.Follows id l) (override : Option Float) :
    (g.opening override).graph.Follows id l := by
  have htypes : (g.opening override).graph.types = g.propagate.types := by cases override <;> rfl
  have hnode := g.opening_node? override id
  refine ⟨by rw [hnode]; exact hf.subscribed, ?_⟩
  rw [← hf.sequential, isCombinational, isCombinational, typeOf?, typeOf?, hnode]
  simp only [type?, htypes]

theorem opening_loops (g : Graph β) (override : Option Float) :
    (g.opening override).graph.loops =
      (g.loops.setFrame (g.frame + 1)).update (g.opening override).report.delta := by
  cases override <;> rfl

/-- The steps that a loop takes in a frame, by the loops alone. -/
def frameSteps (g : Graph β) (override : Option Float) (l : LoopId) (limit : Nat := passLimit) :
    List (Nat × Float) :=
  (g.opening override).graph.loops.frameSteps l limit

variable [Behavior β]

theorem opening_sameShape (g : Graph β) (override : Option Float) :
    SameShape g (g.opening override).graph := (g.advance_effects override).sameShape

/-- In a frame without a failure a node takes a turn on each step of the loop that it follows. -/
theorem runFrame_turns {report : FrameReport}
    (hok : (g.runFrame limit plan override watch).answer = .ok report) (hnodup : plan.order.Nodup)
    (hid : .node id ∈ plan.order) (hf : g.propagate.Follows id l)
    (hgate : plan.gateSource? id = none) :
    (turns id (g.runFrame limit plan override watch).journal.toList).map Timing.step =
      (g.frameSteps override l limit).map fun step => (some l, step) := by
  obtain ⟨main, last, hwalk, hcaught, _, _, hjournal⟩ := runFrame_ok hok
  have hopening := hf.opening override
  have hsame := Progress.walk_samePass hwalk
  have hbefore : (g.opening override).turns id = [] :=
    g.opening_filterMap override (Event.turn? id) fun _ => rfl
  rw [hjournal, last.turns_completed, hcaught.turns hnodup hid (hopening.of_samePass hsame) hgate,
    Progress.walk_turns hwalk hnodup hid hopening hgate, hbefore, hsame.loops, frameSteps,
    LoopTable.frameSteps, Option.toList_map]
  simp [turnOn, Timing.step, Function.comp_def]

end Graph

end FrameGraph
