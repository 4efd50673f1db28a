import FrameGraph.Proofs.Frame.Course
import FrameGraph.Proofs.Frame.Ending
import FrameGraph.Proofs.Frame.Turns
import FrameGraph.Proofs.Graph.Freshness
import FrameGraph.Proofs.Graph.Order

/-! Frames in succession. Between two frames the graph may be edited; edits take no steps and
leave the loops that are registered alone. A node that follows the same loop in every frame
takes a turn on each step that the loop takes, so over all frames it sees the numbers of
the loop's steps one after the other, none missing and none twice. -/

namespace FrameGraph

namespace Graph

variable {β : Type} {g h : Graph β} {id : NodeId} {l : LoopId}

/-! ### Loops -/

theorem Edit.loops (e : Edit g h) :
    h.loops = g.loops ∨ ∃ config other, g.loops.register config = .ok (h.loops, other) := by
  cases e with
  | registerLoop config loops other accepted => exact .inr ⟨config, other, accepted⟩
  | _ => exact .inl rfl

/-- A loop takes no step in edits, and stays as it is when it is registered. -/
theorem edits_keep (e : Relation.ReflTransGen Edit g h) (l : LoopId) :
    h.loops.stepsOf l = g.loops.stepsOf l ∧
      ∀ loop, g.loops.get? l = some loop → h.loops.get? l = some loop := by
  induction e with
  | refl => exact ⟨rfl, fun _ hloop => hloop⟩
  | tail _ e ih =>
    rcases e.loops with heq | ⟨config, other, hregister⟩
    · rw [heq]
      exact ih
    · obtain ⟨hsteps, hkeep⟩ := LoopTable.register_keeps hregister l
      exact ⟨hsteps.trans ih.1, fun loop hloop => hkeep loop (ih.2 loop hloop)⟩

theorem frameSteps_paced {override : Option Float} {limit : Nat} {step : Nat × Float}
    (hstep : step ∈ g.frameSteps override l limit) : g.loops.Paces l step.2 := by
  rw [frameSteps, opening_loops] at hstep
  exact (LoopTable.frameSteps_paced hstep :)

variable [Behavior β]

theorem frame_consecutive {override : Option Float} {watch : Stopwatch} {limit : Nat} {plan : Plan}
    {report : FrameReport} (hok : (g.runFrame limit plan override watch).answer = .ok report)
    (l : LoopId) : Consecutive (g.loops.stepsOf l)
      ((g.frameSteps override l limit).map Prod.fst)
      ((g.runFrame limit plan override watch).graph.loops.stepsOf l) := by
  have hsteps : (g.runFrame limit plan override watch).graph.loops.stepsOf l =
      ((g.opening override).graph.loops.drain limit).2.settle.stepsOf l :=
    congrArg (fun steps => steps.getD 0)
      (LoopTable.map_get?_of_untimed (fun _ => rfl) (runFrame_loops hok) l)
  rw [hsteps, LoopTable.settle_stepsOf, frameSteps, opening_loops]
  exact LoopTable.frameSteps_consecutive (g.loops.setFrame (g.frame + 1)) _ l limit

theorem frame_config {override : Option Float} {watch : Stopwatch} {limit : Nat} {plan : Plan}
    {report : FrameReport} (hok : (g.runFrame limit plan override watch).answer = .ok report)
    (l : LoopId) : ((g.runFrame limit plan override watch).graph.loops.get? l).map Loop.config =
      (g.loops.get? l).map Loop.config := by
  rw [LoopTable.map_get?_of_untimed (fun _ => rfl) (runFrame_loops hok), opening_loops]
  exact LoopTable.frame_config (g.loops.setFrame (g.frame + 1)) _ l limit

/-! ### Frames -/

/-- Frames without a failure, with edits between them, in each of which a node without a gate
follows a loop: what the frames record, and the steps that the loop takes in them. -/
inductive Frames (id : NodeId) (l : LoopId) (g : Graph β) :
    List Event → List (Nat × Float) → Graph β → Prop
  | start : Frames id l g [] [] g
  | edit {events : List Event} {steps : List (Nat × Float)} {h : Graph β} {α : Type}
      (c : Command β α) (before : Frames id l g events steps h) (edits : c.isEdit = true) :
      Frames id l g events steps (c.run h).graph
  | frame {events : List Event} {steps : List (Nat × Float)} {h : Graph β}
      (override : Option Float) (watch : Stopwatch) (report : FrameReport)
      (before : Frames id l g events steps h) (follows : h.propagate.Follows id l)
      (ungated : ∀ c ∈ h.connections, c.sink = id → c.sinkPort ≠ .gate)
      (ok : (h.execute override watch).answer = .ok report) :
      Frames id l g (events ++ (h.execute override watch).journal.toList)
        (steps ++ h.frameSteps override l) (h.execute override watch).graph

variable {events : List Event} {steps : List (Nat × Float)}

theorem Frames.reachable (hf : Frames id l g events steps h) (hg : Reachable g) :
    Reachable h := by
  induction hf with
  | start => exact hg
  | edit c before edits ih => exact ih.run c
  | frame override watch report before follows ungated ok ih =>
    exact ih.run (.execute override watch)

theorem Reachable.ungated (hg : Reachable g) {plan : Plan} (hplan : g.plan = some plan)
    (hcurrent : g.isOutdated = false) (hlive : (g.node? id).isSome)
    (hungated : ∀ c ∈ g.connections, c.sink = id → c.sinkPort ≠ .gate) :
    plan.order.Nodup ∧ .node id ∈ plan.order ∧ plan.gateSource? id = none := by
  have hi := hg.integral
  obtain ⟨s, rfl, hnet, hv⟩ := hi.exists_schedule (hg.planIsFresh plan hplan hcurrent).1
  obtain ⟨n, hn⟩ := Option.isSome_iff_exists.mp hlive
  refine ⟨hv.plan_order_nodup, ?_, ?_⟩
  · refine (hi.mem_order hnet hv _).mpr (.inl ⟨n, mem_nodes_of_node? hn, ?_⟩)
    rw [hi.id_eq id n hn]
  · refine Option.eq_none_iff_forall_ne_some.mpr fun source hsource => ?_
    obtain ⟨e, he, hsink, _⟩ := hv.gateSource?_eq_some.mp hsource
    obtain ⟨c, hc, hcarries, _, hcsink⟩ := hi.gate_connection hnet he
    exact hungated c hc (hcsink.symm.trans hsink) (Connection.ports_of_gate hcarries).2

/-- The node takes a turn on each step of the loop, and sees the loop, the number and the delta of
the step. -/
theorem Frames.turns_step (hf : Frames id l g events steps h) (hg : Reachable g) :
    (turns id events).map Timing.step = steps.map fun step => (some l, step) := by
  induction hf with
  | start => rfl
  | edit c before edits ih => exact ih
  | @frame events steps h override watch report before follows ungated ok ih =>
    have hh := before.reachable hg
    obtain ⟨plan, hplan, hcurrent, hrun⟩ := execute_ok ok
    have hlive : (h.node? id).isSome := by
      obtain ⟨n, hn, _⟩ := follows.subscribed
      rw [← (propagate_sameShape h).node?_isSome, hn]
      rfl
    obtain ⟨hnodup, hid, hgate⟩ := hh.ungated hplan hcurrent hlive ungated
    rw [hrun] at ok ⊢
    rw [turns_append, List.map_append, List.map_append, ih,
      runFrame_turns ok hnodup hid follows hgate]

theorem Frames.consecutive (hf : Frames id l g events steps h) :
    Consecutive (g.loops.stepsOf l) (steps.map Prod.fst) (h.loops.stepsOf l) := by
  induction hf with
  | start => exact .nil _
  | edit c before edits ih =>
    rw [(edits_keep (run_edits edits) l).1]
    exact ih
  | frame override watch report before follows ungated ok ih =>
    obtain ⟨plan, _, _, hrun⟩ := execute_ok ok
    rw [hrun] at ok ⊢
    rw [List.map_append]
    exact ih.append (frame_consecutive ok l)

theorem Frames.paced (hf : Frames id l g events steps h) :
    ∀ step ∈ steps, h.loops.Paces l step.2 := by
  induction hf with
  | start => exact fun _ hstep => nomatch hstep
  | edit c before edits ih =>
    intro step hstep
    obtain ⟨loop, hloop, hdelta⟩ := ih step hstep
    exact ⟨loop, (edits_keep (run_edits edits) l).2 loop hloop, hdelta⟩
  | frame override watch report before follows ungated ok ih =>
    obtain ⟨plan, _, _, hrun⟩ := execute_ok ok
    rw [hrun] at ok ⊢
    intro step hstep
    rcases List.mem_append.mp hstep with hearlier | hnow
    · exact (ih step hearlier).congr (frame_config ok l)
    · exact (frameSteps_paced hnow).congr (frame_config ok l)

/-- The turns are those of invocations that were made, on the timing that the node was handed. -/
theorem Frames.turns_made (hf : Frames id l g events steps h) {turn : Timing}
    (hturn : turn ∈ turns id events) : ∃ (k : Graph β) (plan : Plan) (override : Option Float)
      (c : Context), k.Makes plan override c ∧ c.node = id ∧ c.timing = turn := by
  induction hf with
  | start => cases hturn
  | edit c before edits ih => exact ih hturn
  | @frame events steps h override watch report before follows ungated ok ih =>
    rw [turns_append, List.mem_append] at hturn
    obtain hearlier | hnow := hturn
    · exact ih hearlier
    · obtain ⟨plan, _, _, hrun⟩ := execute_ok ok
      obtain ⟨event, hevent, heq⟩ := List.mem_filterMap.mp hnow
      cases event with
      | invoked c =>
        obtain ⟨hnode, htiming⟩ := Option.ite_none_right_eq_some.mp heq
        exact ⟨h, plan, override, c, runFrame_makes (hrun ▸ hevent), hnode,
          Option.some.inj htiming⟩
      | _ => cases heq

/-- No step is lost or seen twice. Over frames without a failure a node that follows one loop sees
that loop on each of its steps, the numbers on from the loop's count before the frames and as many
as the count grows, and with each number the delta of that step, which is the timestep of a fixed
loop that keeps its debt. -/
theorem Reachable.turns_consecutive (hg : Reachable g) (hf : Frames id l g events steps h) :
    (turns id events).map Timing.step = steps.map (fun step => (some l, step)) ∧
    (turns id events).map Timing.steps =
      List.range' (g.loops.stepsOf l + 1) (turns id events).length ∧
    h.loops.stepsOf l = g.loops.stepsOf l + (turns id events).length ∧
    ∀ turn ∈ turns id events, turn.loop = some l ∧ h.loops.Paces l turn.delta := by
  have hturns := hf.turns_step hg
  have hlength : (turns id events).length = (steps.map Prod.fst).length := by
    simpa using congrArg List.length hturns
  have hnumbers : (turns id events).map Timing.steps = steps.map Prod.fst := by
    have hmap := congrArg (List.map fun step => step.2.1) hturns
    rwa [List.map_map, List.map_map] at hmap
  have hcount := hf.consecutive
  refine ⟨hturns, ?_, ?_, fun turn hturn => ?_⟩
  · rw [hnumbers, hlength]
    exact hcount.numbers_eq
  · rw [hlength]
    exact hcount.last_eq
  · have hmem := List.mem_map_of_mem (f := Timing.step) hturn
    rw [hturns] at hmem
    obtain ⟨step, hstep, heq⟩ := List.mem_map.mp hmem
    obtain ⟨hloop, hstep'⟩ := Prod.mk.inj heq
    have hpaced := hf.paced step hstep
    rw [hstep'] at hpaced
    exact ⟨hloop.symm, hpaced⟩

/-- In one frame of the relay the pass that the loop drives takes two turns, one in each pass. -/
theorem relay_turns : ∃ events steps h, Frames ⟨1⟩ ⟨0⟩ relay events steps h ∧
    (turns ⟨1⟩ events).map Timing.steps = [1, 2] ∧
    ∀ turn ∈ turns ⟨1⟩ events, turn.loop = some ⟨0⟩ ∧ h.loops.Paces ⟨0⟩ turn.delta := by
  obtain ⟨report, hok, _⟩ := relay_ok
  have hsubscribed : (relay.propagate.node? ⟨1⟩).map Node.subscriptions = some [⟨0⟩] := by
    decide +kernel
  have hfollows : relay.propagate.Follows ⟨1⟩ ⟨0⟩ :=
    ⟨Option.map_eq_some_iff.mp hsubscribed, by decide +kernel⟩
  have hframes := Frames.start.frame (some 0.25) .still report hfollows (by decide +kernel) hok
  obtain ⟨_, hnumbers, hcount, hturns⟩ := relay_reachable.turns_consecutive hframes
  refine ⟨_, _, _, hframes, ?_, hturns⟩
  have hbefore : relay.loops.stepsOf ⟨0⟩ = 0 := by decide +kernel
  have hafter : (relay.execute (some 0.25)).graph.loops.stepsOf ⟨0⟩ = 2 := by decide +kernel
  rw [hbefore, hafter, Nat.zero_add] at hcount
  rw [hnumbers, hbefore, ← hcount]
  rfl

end Graph

end FrameGraph
