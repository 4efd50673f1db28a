import FrameGraph.Proofs.Frame.Accounting
import FrameGraph.Proofs.Frame.Agreement
import FrameGraph.Proofs.Frame.Sequence

/-! Placement on devices is transparent. Graphs that differ in devices and settings may be run by
plans with other orders and other transfers. Their passes still go in step: each node finds the same
values at its turn, gates read directly and data read through whatever transfers there are. So all
that a frame leaves in the nodes and counts in its report is the same on all devices. -/

namespace FrameGraph

variable {β : Type}

/-! ### Behaviors -/

/-- What a behavior does depends on its device in its notes at most. -/
def DeviceBlind (β : Type) [Behavior β] : Prop :=
  ∀ (behavior : β) (c : Context) (device : Device),
    (Behavior.act behavior c).Alike (Behavior.act behavior { c with device })

theorem DeviceBlind.work [Behavior β] (h : DeviceBlind β) : DeviceBlind (Work β) := by
  intro work c device
  cases work with
  | custom behavior => exact (h behavior c device).map _
  | bridge | boolOp | constant => exact .refl _

/-! ### Placements -/

def Command.places {α : Type} : Command β α → Bool
  | .setDevice _ _ | .setConfig _ | .compile => true
  | _ => false

namespace Graph

/-- Two graphs differ at most in devices, settings and plans. -/
structure Relocated (g h : Graph β) : Prop where
  peers : Peers g h
  loops : h.loops = g.loops
  held : ∀ id, HoldsAlike g h id

variable {g h k : Graph β}

theorem Relocated.refl (g : Graph β) : Relocated g g :=
  ⟨⟨rfl, rfl, rfl, rfl, rfl⟩, rfl, fun _ => rfl⟩

theorem Relocated.trans (hgh : Relocated g h) (hhk : Relocated h k) : Relocated g k where
  peers := ⟨hhk.peers.types.trans hgh.peers.types,
    hhk.peers.connections.trans hgh.peers.connections, hhk.peers.timer.trans hgh.peers.timer,
    hhk.peers.frame.trans hgh.peers.frame, hhk.peers.slots.trans hgh.peers.slots⟩
  loops := hhk.loops.trans hgh.loops
  held id := (hhk.held id).trans (hgh.held id)

theorem Relocated.run [Behavior β] {α : Type} (g : Graph β) (c : Command β α)
    (hc : c.places = true) : Relocated g (c.run g).graph := by
  cases c with
  | setDevice id device =>
    simp only [Command.run, Outcome.ofCall, setDevice]
    cases hnode : g.node? id with
    | none => exact .refl g
    | some n =>
      have hview {γ : Type} (view : Node β → γ)
          (h : ∀ n : Node β, view { n with device } = view n) :=
        modifyNode_map g id (fun n => { n with device }) view fun n _ => h n
      refine ⟨⟨rfl, rfl, rfl, rfl, hview _ fun _ => rfl⟩, rfl, fun other => ?_⟩
      rw [HoldsAlike, node?_map, node?_map]
      exact congrArg (fun slots => (slots[other.index]?).join) (hview Node.held fun _ => rfl)
  | setConfig config => exact ⟨⟨rfl, rfl, rfl, rfl, rfl⟩, rfl, fun _ => rfl⟩
  | compile =>
    rw [Command.run, telling_graph]
    obtain ⟨e, hcompile⟩ | ⟨plan, _, hcompile⟩ := g.compile_cases
    · rw [hcompile]
      exact .refl g
    · rw [hcompile]
      exact ⟨⟨rfl, rfl, rfl, rfl, rfl⟩, rfl, fun _ => rfl⟩
  | _ => cases hc

/-- Two graphs differ at most in devices, settings and plans, and in measured times if these are not
seen. -/
structure Parallel (timed : Bool) (g h : Graph β) : Prop where
  peers : Peers g h
  loops : h.loops.seen timed = g.loops.seen timed
  held : ∀ id, HoldsAlike g h id

theorem Relocated.parallel (hrel : Relocated g h) (timed : Bool) : Parallel timed g h :=
  ⟨hrel.peers, by rw [hrel.loops], hrel.held⟩

end Graph

/-! ### Passes -/

namespace Progress

open FrameGraph.Graph

variable [Behavior β] {P Q : Plan} {pass : Pass} {p q p' q' : Progress β} {id : NodeId}
  {m n : Node β} {steps rest : List Step} {timed : Bool}

/-- At a node where two passes over relocated graphs are level its turn goes the same way. -/
theorem Level.parallel (h : Level p' q' P Q pass id m n) (hrel : Parallel timed p.graph q.graph)
    (hp : SamePass p.graph p'.graph) (hq : SamePass q.graph q'.graph)
    (hm : p.graph.node? id = some m) (hn : q.graph.node? id = some n) (hblind : DeviceBlind β)
    (hseen : Sees timed β) :
    q'.graph.runs Q pass id = p'.graph.runs P pass id ∧
      (q'.turned Q pass id n).1.held = (p'.turned P pass id m).1.held ∧
      (q'.turned Q pass id n).2 = (p'.turned P pass id m).2 := by
  have hloops : q'.graph.loops.seen timed = p'.graph.loops.seen timed := by
    rw [hp.loops, hq.loops, hrel.loops]
  have huntimed : q'.graph.loops.untimed = p'.graph.loops.untimed := by
    rw [← LoopTable.seen_untimed _ timed, hloops, LoopTable.seen_untimed]
  have hheld : n.held = m.held := by
    have hboth := hrel.held id
    rw [HoldsAlike, hm, hn] at hboth
    exact Option.some.inj hboth
  have hget (l : LoopId) (_ : l ∈ m.subscriptions) :
      q'.graph.loops.untimed.get? l = p'.graph.loops.untimed.get? l := by rw [huntimed]
  refine ⟨h.runs hget, h.turned_held hheld hget fun work _ => ?_⟩
  rcases h.context hget with heq | ⟨hshown, heq⟩
  · rw [heq]
    exact hblind.work work _ _
  · rw [heq]
    refine (hblind.work work _ (q'.context Q pass id n).device).trans ?_
    exact hseen.work hshown hloops fun _ _ _ => LoopTable.isTriggered_of_untimed huntimed _

/-- Passes over relocated graphs hold the same wherever the second, which may be under way, has
been. -/
theorem Settles.parallel_held (hp : Settles P pass P.order p p')
    (hrel : Parallel timed p.graph q.graph) (hdelta : q.report.delta = p.report.delta)
    (hP : p.graph.RunBy P) (hQ : q.graph.RunBy Q) (hblind : DeviceBlind β)
    (hseen : Sees timed β) (hq : Settles Q pass steps q q') (hsteps : Q.order = steps ++ rest)
    (hid : .node id ∈ steps) :
    HoldsAlike p'.graph q'.graph id :=
  hp.agree hP hq hQ hsteps hrel.peers hdelta (U := fun _ => True) (fun _ _ _ => trivial)
    (fun _ _ _ _ hm hn hlevel => (hlevel.parallel hrel hp.same hq.same hm hn hblind hseen).2.1)
    trivial hid

/-- Where no node fails on one placement, none fails on the other. -/
theorem Settles.parallel_walk (hp : Settles P pass P.order p p')
    (hrel : Parallel timed p.graph q.graph) (hdelta : q.report.delta = p.report.delta)
    (hP : p.graph.RunBy P) (hQ : q.graph.RunBy Q) (hblind : DeviceBlind β)
    (hseen : Sees timed β) (hsteps : Q.order = steps ++ rest) :
    ∃ q', q.walk Q pass steps = (q', none) := by
  induction steps using List.reverseRecOn generalizing rest with
  | nil => exact ⟨q, rfl⟩
  | append_singleton steps s ih =>
    have horder : Q.order = steps ++ s :: rest := by rw [hsteps, List.append_assoc]; rfl
    obtain ⟨mid, hmid⟩ := ih horder
    have hlinear := hQ.isLinear
    rw [horder] at hlinear
    have hq := walk_settles hlinear.of_append.1 hmid
    suffices hstep : (mid.step Q pass s).2 = none from
      ⟨_, walk_append_iff.mpr ⟨mid, hmid, walk_cons_iff.mpr ⟨_, Prod.ext rfl hstep, rfl⟩⟩⟩
    cases s with
    | transfer t => rfl
    | node id =>
      have hid : .node id ∈ Q.order := horder ▸ List.mem_append_right _ List.mem_cons_self
      obtain ⟨m, n, hm, hn, hlevel⟩ := hp.level hP hq hQ hrel.peers hdelta hid
        (hQ.mem_before _ _ _ horder) fun c hc hsink =>
          hp.parallel_held hrel hdelta hP hQ hblind hseen hq horder
            (hQ.producers _ _ _ horder c (hrel.peers.dependencies ▸ hc) hsink)
      have hfresh : .node id ∉ steps := fun hmem =>
        (List.nodup_append.mp (horder ▸ hQ.nodup)).2.2 _ hmem _ List.mem_cons_self rfl
      have hlive : mid.graph.node? id = some n := Eq.trans (hq.others _ hfresh) hn
      have hmem : .node id ∈ P.order := hP.node_mem.mpr (by rw [hm]; rfl)
      rw [(step_node Q pass hlive).2, (hlevel.parallel hrel hp.same hq.same hm hn hblind hseen).2.2,
        (hp.at_mem _ hmem m hm).1]
      rfl

/-- A pass leads from relocated graphs to relocated graphs and reports the same. -/
theorem walk_parallel (hrel : Parallel timed p.graph q.graph) (hreport : p.report.Alike q.report)
    (hP : p.graph.RunBy P) (hQ : q.graph.RunBy Q) (hblind : DeviceBlind β)
    (hseen : Sees timed β) (hwalk : p.walk P pass P.order = (p', none)) :
    ∃ q', q.walk Q pass Q.order = (q', none) ∧ Parallel timed p'.graph q'.graph ∧
      p'.report.Alike q'.report := by
  have hp := walk_settles hP.isLinear hwalk
  obtain ⟨q', hwalk'⟩ :=
    hp.parallel_walk hrel hreport.delta hP hQ hblind hseen (List.append_nil _).symm
  have hq := walk_settles hQ.isLinear hwalk'
  have hpeers := hrel.peers.samePass hp.same hq.same
  have hheld {id : NodeId} (hid : .node id ∈ Q.order) : HoldsAlike p'.graph q'.graph id :=
    hp.parallel_held hrel hreport.delta hP hQ hblind hseen hq (List.append_nil _).symm hid
  have hlive (id : NodeId) : .node id ∈ Q.order ↔ .node id ∈ P.order := by
    rw [hP.node_mem, hQ.node_mem, hrel.peers.node?_isSome]
  have hruns : ∀ id, .node id ∈ Q.order → q'.graph.runs Q pass id = p'.graph.runs P pass id := by
    intro id hid
    obtain ⟨before, after, horder⟩ := List.append_of_mem hid
    have hbefore {s : Step} (hs : s ∈ before) : s ∈ Q.order := horder ▸ List.mem_append_left _ hs
    obtain ⟨m, n, hm, hn, hlevel⟩ := hp.level hP hq hQ hrel.peers hreport.delta hid
      (fun a ha => hbefore (hQ.mem_before _ _ _ horder a ha)) fun c hc hsink =>
        hheld (hbefore (hQ.producers _ _ _ horder c (hrel.peers.dependencies ▸ hc) hsink))
    exact (hlevel.parallel hrel hp.same hq.same hm hn hblind hseen).1
  refine ⟨q', hwalk', ⟨hpeers, ?_, fun id => ?_⟩, ?_⟩
  · rw [hp.same.loops, hq.same.loops, hrel.loops]
  · by_cases hid : .node id ∈ Q.order
    · exact hheld hid
    · refine hpeers.holdsAlike_of_gone fun hsome => hid ((hlive id).mpr (hP.node_mem.mpr ?_))
      rwa [hp.same.node?_isSome] at hsome
  · rw [walk_report hP.isLinear hwalk, walk_report hQ.isLinear hwalk',
      FrameReport.after_congr hruns]
    refine hreport.after ((List.perm_ext_iff_of_nodup (FrameReport.nodup_nodes hQ.nodup)
      (FrameReport.nodup_nodes hP.nodup)).mpr fun id => ?_)
    rw [FrameReport.mem_nodes, FrameReport.mem_nodes, hlive]

theorem CaughtUp.parallel {limit : Nat} (h : p.CaughtUp P limit p')
    (hrel : Parallel timed p.graph q.graph) (hreport : p.report.Alike q.report)
    (hP : p.graph.RunBy P) (hQ : q.graph.RunBy Q) (hblind : DeviceBlind β)
    (hseen : Sees timed β) :
    ∃ q', q.CaughtUp Q limit q' ∧ Parallel timed p'.graph q'.graph ∧
      p'.report.Alike q'.report := by
  induction h generalizing q with
  | done settled =>
    rw [← LoopTable.catchUp?_seen_eq_none, ← hrel.loops, LoopTable.catchUp?_seen_eq_none] at settled
    exact ⟨q, .done settled, hrel, hreport⟩
  | @pass limit p next last loops behind walked rest ih =>
    obtain ⟨loops', behind', hloops⟩ := LoopTable.catchUp?_alike hrel.loops behind
    have hbegun : Parallel timed (p.beginPass loops).graph (q.beginPass loops').graph :=
      ⟨⟨hrel.peers.types, hrel.peers.connections, hrel.peers.timer, hrel.peers.frame,
        hrel.peers.slots⟩, hloops, hrel.held⟩
    have hcounted : (p.beginPass loops).report.Alike (q.beginPass loops').report :=
      ⟨hreport.frame, hreport.delta, hreport.executed, hreport.skipped, hreport.invocations,
        congrArg (· + 1) hreport.catchUpPasses⟩
    have hP' := hP.of_sameShape (.timing p.graph loops p.graph.timer p.graph.frame)
    have hQ' := hQ.of_sameShape (.timing q.graph loops' q.graph.timer q.graph.frame)
    obtain ⟨next', hwalk', hrel', hreport'⟩ :=
      walk_parallel hbegun hcounted hP' hQ' hblind hseen walked
    obtain ⟨last', hcaught, hlast⟩ :=
      ih hrel' hreport' (walk_runBy hP' walked) (walk_runBy hQ' hwalk')
    exact ⟨last', .pass behind' hwalk' hcaught, hlast⟩

end Progress

/-! ### Frames -/

open FrameGraph.Graph in
/-- Two frames complete, report the same but for the order in which nodes ran and the number of
transfers, and leave the same in every node. -/
def Frame.Alike [Behavior β] (f f' : Frame β) : Prop :=
  ∃ r r', f.outcome.answer = .ok r ∧ f'.outcome.answer = .ok r' ∧ r.Alike r' ∧
    ∀ id, HoldsAlike f.outcome.graph f'.outcome.graph id

namespace Graph

variable [Behavior β] {g h : Graph β} {P Q : Plan} {override : Option Float}
  {watch watch' : Stopwatch} {timed : Bool}

theorem Parallel.execute (hrel : Parallel timed g h) (hg : g.Ready P) (hh : h.Ready Q)
    (hblind : DeviceBlind β) (hseen : Sees timed β)
    (htimes : timed = true →
      Frame.SameTimes (fun _ => True) ⟨g, override, watch⟩ ⟨h, override, watch'⟩)
    {r : FrameReport} (hok : (g.execute override watch).answer = .ok r) :
    ∃ r', (h.execute override watch').answer = .ok r' ∧ r.Alike r' ∧
      Parallel timed (g.execute override watch).graph (h.execute override watch').graph := by
  obtain ⟨main, last, hwalk, hcaught, rfl, hgraph, _⟩ := hg.passes hok
  obtain ⟨hpeers, hreport⟩ := hrel.peers.opening override
  have hloops : (h.opening override).graph.loops.seen timed =
      (g.opening override).graph.loops.seen timed := by
    rw [opening_loops, opening_loops, hreport, hrel.peers.frame]
    simp only [LoopTable.update_seen, LoopTable.setFrame_seen, hrel.loops]
  have hopened : Parallel timed (g.opening override).graph (h.opening override).graph :=
    ⟨hpeers, hloops, fun id => by
      rw [HoldsAlike, opening_held, opening_held]
      exact hrel.held id⟩
  have hP := hg.runBy.of_sameShape (g.opening_sameShape override)
  have hQ := hh.runBy.of_sameShape (h.opening_sameShape override)
  obtain ⟨main', hwalk', hmain, halike⟩ :=
    Progress.walk_parallel hopened (hreport ▸ .refl _) hP hQ hblind hseen hwalk
  obtain ⟨last', hcaught', hlast, hend⟩ := hcaught.parallel hmain halike
    (Progress.walk_runBy hP hwalk) (Progress.walk_runBy hQ hwalk') hblind hseen
  obtain ⟨hanswer', hgraph'⟩ := hh.execute_ok hwalk' hcaught'
  have huntimed : (h.execute override watch').graph.loops.untimed =
      (g.execute override watch).graph.loops.untimed := by
    rw [hgraph, hgraph', settled_untimed, settled_untimed, ← LoopTable.seen_untimed _ timed,
      ← LoopTable.seen_untimed last.graph.loops.settle timed, LoopTable.settle_seen,
      LoopTable.settle_seen, hlast.loops]
  refine ⟨last'.report, hanswer', hend, ?_, LoopTable.seen_eq huntimed htimes, ?_⟩
  · rw [hgraph, hgraph']
    exact ⟨hlast.peers.types, hlast.peers.connections, hlast.peers.timer, hlast.peers.frame,
      hlast.peers.slots⟩
  · rw [hgraph, hgraph']
    exact hlast.held

theorem Parallel.wait (hrel : Parallel timed g h) (seconds : Float) :
    Parallel timed (g.wait seconds) (h.wait seconds) := by
  refine ⟨hrel.peers.wait seconds, ?_, fun id => ?_⟩
  · rw [wait_eq, wait_eq]
    exact hrel.loops
  · rw [wait_eq, wait_eq]
    exact hrel.held id

theorem Parallel.frames (hrel : Parallel timed g h) (hg : g.Ready P) (hh : h.Ready Q)
    (hblind : DeviceBlind β) (hseen : Sees timed β) (w w' : Nat → Stopwatch) (beats : List Beat)
    (htimes : timed = true →
      List.Forall₂ (Frame.SameTimes fun _ => True) (g.frames w beats) (h.frames w' beats))
    (hok : ∀ f ∈ g.frames w beats, ∃ r, f.outcome.answer = .ok r) :
    List.Forall₂ Frame.Alike (g.frames w beats) (h.frames w' beats) := by
  induction beats generalizing g h w w' with
  | nil => exact .nil
  | cons beat rest ih =>
    obtain ⟨⟨r, hr⟩, hrest⟩ := List.forall_mem_cons.mp hok
    have hg' := hg.wait beat.elapsed
    have hh' := hh.wait beat.elapsed
    obtain ⟨r', hr', halike, hnext⟩ := (hrel.wait beat.elapsed).execute hg' hh' hblind hseen
      (fun ht => (List.forall₂_cons.mp (htimes ht)).1) hr
    exact .cons ⟨r, r', hr, hr', halike, hnext.held⟩ (ih hnext hg'.execute hh'.execute _ _
      (fun ht => (List.forall₂_cons.mp (htimes ht)).2) hrest)

/-! ### Delivery -/

/-- At its turn, in any pass and whatever the graph held when the pass began, a consumer finds at a
connected input what its producer holds, and the producer and the transfer between them, if
there is one, have had their turns in the same pass. -/
def Delivers (g : Graph β) (plan : Plan) : Prop :=
  ∀ c ∈ g.connections, ∀ output input, c.carries? = some (.data output input) →
    .node c.source ∈ plan.before (.node c.sink) ∧
    (∀ t, plan.inputSource? c.sink input = some (.transfer t) →
      .transfer t ∈ plan.before (.node c.sink)) ∧
    ∀ (p q : Progress β) (pass : Pass) (n : Node β), SameShape g p.graph →
      p.walk plan pass (plan.before (.node c.sink)) = (q, none) → q.graph.node? c.sink = some n →
        (q.context plan pass c.sink n).input input = q.graph.read (.output c.source output)

theorem Integral.delivers (hg : g.Integral) (hrun : g.RunBy P) : g.Delivers P := by
  intro c hc output input carries
  obtain ⟨_, type, carried, hsource, hsink, hcarried, hports⟩ := hg.fits c hc
  obtain rfl : carried = .data output input := Option.some.inj (hcarried.symm.trans carries)
  obtain ⟨_, port, _, hport, _⟩ := hports
  have hdep : c ∈ g.dependencies :=
    List.mem_filter.mpr ⟨hc, Connection.isDependency_iff.mpr (.inl ⟨_, _, carries⟩)⟩
  obtain ⟨sink, hnode, _⟩ := typeOf?_isSome hsink
  have hlive : .node c.sink ∈ P.order := hrun.node_mem.mpr (by rw [hnode]; rfl)
  obtain ⟨after, horder⟩ := P.order_eq_before hlive
  have hbefore := hrun.mem_before _ _ _ horder
  refine ⟨hrun.producers _ _ _ horder c hdep rfl, fun t ht => hbefore _ ⟨_, .input ht, rfl⟩,
    fun p q pass n hshape hwalk hn => ?_⟩
  have hrun' := hrun.of_sameShape hshape
  have hlinear := hrun.isLinear
  rw [horder] at hlinear
  have hsettles := Progress.walk_settles hlinear.of_append.1 hwalk
  have hstart : p.graph.node? c.sink = some n :=
    Eq.trans (hsettles.others _ (P.not_mem_before _)).symm hn
  -- the consumer is of a type that has the input
  have htype : q.graph.type? n.type = some type := by
    have hkept := (hshape.trans (walk_sameShape hwalk)).typeOf? c.sink
    rw [typeOf?, hn, hsink] at hkept
    exact hkept
  have hlt : input < type.inputs.length := (List.getElem?_eq_some_iff.mp hport).1
  have hfeeder : q.graph.feeder? c.sink (.data input) = some (.output c.source output) := by
    rw [Graph.feeder?, dependencies, hsettles.same.connections, hshape.connections]
    exact hg.feeder_of_data hc carries
  rw [Context.input, (hsettles.shows hrun' hbefore hstart).inputs, htype, Option.map_some,
    Option.getD_some, getD_supplied q.graph c.sink hlt, hfeeder]
  rfl

/-- Devices make no difference to what is computed. Compiled graphs that differ at most in devices,
settings and plans execute the same frames, whatever time their invocations take, if behaviors do
not look at measured times or both measure the same: where the frames of one complete, those of the
other do, with the same nodes executed and skipped, the same invocations and catch-up passes, and
the same outputs and work in every node. In particular transfers are never stale: a consumer finds
what its producer holds at that turn, whatever the graph held before the pass. -/
theorem Reachable.relocated_frames (hg : Reachable g) (hh : Reachable h) (hP : g.plan = some P)
    (hcurrent : g.isOutdated = false) (hQ : h.plan = some Q) (hcurrent' : h.isOutdated = false)
    (hrel : Relocated g h) (hblind : DeviceBlind β) (w w' : Nat → Stopwatch) (beats : List Beat)
    (htimes : TimeBlind β ∨
      List.Forall₂ (Frame.SameTimes fun _ => True) (g.frames w beats) (h.frames w' beats))
    (hok : ∀ f ∈ g.frames w beats, ∃ r, f.outcome.answer = .ok r) :
    List.Forall₂ Frame.Alike (g.frames w beats) (h.frames w' beats) ∧
      g.Delivers P ∧ h.Delivers Q := by
  have hready := hg.ready hP hcurrent
  have hready' := hh.ready hQ hcurrent'
  obtain ⟨timed, hunlooked, hmeasured⟩ := exists_sight htimes
  have hframes := (hrel.parallel timed).frames hready hready' hblind (.of_timeBlind hunlooked) w w'
    beats hmeasured hok
  exact ⟨hframes, hg.integral.delivers hready.runBy, hh.integral.delivers hready'.runBy⟩

end Graph

theorem Script.deviceBlind : DeviceBlind Script := fun script c device =>
  script.act_alike c device c.loops

namespace Graph

def relayMoved : Graph Script :=
  (Command.run (Command.run relay (.setDevice ⟨1⟩ (some ⟨1⟩))).graph .compile).graph

/-- On two devices the relay carries an output over, takes other times, and executes the same
frames. -/
theorem relay_relocated : (relayMoved.plan.map fun plan => plan.transfers.length) = some 1 ∧
    List.Forall₂ Frame.Alike (relay.frames (relayWatches 1) relayBeats)
      (relayMoved.frames (relayWatches 2) relayBeats) := by
  obtain ⟨P, hP, hcurrent⟩ := isCompiled_iff.mp (by decide +kernel : relay.isCompiled = true)
  obtain ⟨Q, hQ, hcurrent'⟩ := isCompiled_iff.mp (by decide +kernel : relayMoved.isCompiled = true)
  have hrel : Relocated relay relayMoved :=
    (Relocated.run relay (.setDevice ⟨1⟩ (some ⟨1⟩)) rfl).trans (Relocated.run _ .compile rfl)
  have hok : (relay.frames (relayWatches 1) relayBeats).all Frame.isOk = true := by decide +kernel
  have hmoved : Reachable relayMoved := (relay_reachable.run _).run _
  have hframes := relay_reachable.relocated_frames hmoved hP hcurrent hQ hcurrent' hrel
    Script.deviceBlind _ (relayWatches 2) _ (.inl (Script.blindTo _)) fun f hf =>
      Frame.isOk_iff.mp (List.all_eq_true.mp hok f hf)
  exact ⟨by decide +kernel, hframes.1⟩

end Graph

end FrameGraph
