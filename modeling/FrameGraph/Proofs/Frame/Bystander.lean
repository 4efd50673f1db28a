import FrameGraph.Proofs.Frame.Surplus
import FrameGraph.Proofs.Graph.Acceptance

/-! A loop that no bridge names. The frames of a graph with it are those without it, pass by pass,
and then the passes that only the further loop asks for. What a frame does of a node and of all that
leads to it is the same with and without the loop, unless one of these is run by its gate in such a
pass. -/

namespace FrameGraph

variable {β : Type} [Behavior β]

/-! ### Passes -/

namespace Progress

open FrameGraph.Graph

def withLoops (p : Progress β) (loops : LoopTable Float) : Progress β :=
  { p with graph := { p.graph with loops } }

variable {plan : Plan} {pass : Pass} {p q p' q' : Progress β} {l : LoopId} {U : NodeId → Prop}
  {limit : Nat} {t u : LoopTable Float} {timed : Bool}

/-- Frames in progress by one plan, the second with the further loop, that agree on the set and on
what is seen of the other loops. -/
structure Escorted (timed : Bool) (l : LoopId) (U : NodeId → Prop) (plan : Plan)
    (p q : Progress β) : Prop where
  graphs : Accompanied l U p.graph q.graph
  loops : (p.graph.loops.seen timed).Extends l (q.graph.loops.seen timed)
  spares : p.graph.Spares l
  delta : q.report.delta = p.report.delta
  runBy : p.graph.RunBy plan
  runBy' : q.graph.RunBy plan
  beside : ∀ id, U id → .node id ∈ plan.order → Beside id p q

namespace Escorted

/-- The second frame begins a catch-up pass, and the first does too or stays where it is. -/
theorem beginPass (h : Escorted timed l U plan p q) (hext : (t.seen timed).Extends l (u.seen timed))
    (hp : p' = p.beginPass t ∨ p' = p.withLoops t) :
    Escorted timed l U plan p' (q.beginPass u) := by
  have hrun := h.runBy.of_sameShape (.timing p.graph t p.graph.timer p.graph.frame)
  have hrun' := h.runBy'.of_sameShape (.timing q.graph u q.graph.timer q.graph.frame)
  rcases hp with rfl | rfl
  all_goals
    refine ⟨h.graphs.withLoops t u, hext, h.spares, h.delta, hrun, hrun', fun id hU hid => ?_⟩
    obtain ⟨hexecuted, hskipped, hascending, hascending', hfollowed⟩ := h.beside id hU hid
    exact ⟨hexecuted, hskipped, hascending, hascending', hfollowed⟩

theorem walk (h : Escorted timed l U plan p q) (hblind : Overlooks timed l β)
    (hp : p.walk plan pass plan.order = (p', none))
    (hq : q.walk plan pass plan.order = (q', none)) : Escorted timed l U plan p' q' := by
  obtain ⟨hgraphs, hlevel⟩ :=
    walk_accompanied h.graphs h.spares h.loops h.delta h.runBy h.runBy' hblind hp hq
  have hsame := walk_samePass hp
  have hsame' := walk_samePass hq
  refine ⟨hgraphs, ?_, h.spares.of_samePass hsame, ?_, walk_runBy h.runBy hp,
    walk_runBy h.runBy' hq, fun id hU hid => ?_⟩
  · rw [hsame.loops, hsame'.loops]
    exact h.loops
  · rw [(walk_settles h.runBy.isLinear hp).delta, (walk_settles h.runBy'.isLinear hq).delta]
    exact h.delta
  · obtain ⟨m, n, hm, hn, hruns, htiming⟩ := hlevel id hU hid
    exact (h.beside id hU hid).walk h.runBy.isLinear hid hp hq hm hn hruns htiming

/-- A pass that only the further loop asks for: the other loops stand idle in it. -/
theorem surplus (h : Escorted timed l U plan p q) (hsettled : p.graph.loops.catchUp? = none)
    (hbehind : q.graph.loops.catchUp? = some u)
    (hq : (q.beginPass u).walk plan .catchUp plan.order = (q', none))
    (hquiet : (q.beginPass u).Quiet plan U) :
    Escorted timed l U plan (p.withLoops p.graph.loops.idled) q' := by
  have hext : (p.graph.loops.idled.seen timed).Extends l (u.seen timed) :=
    h.loops.idle_seen hsettled hbehind
  have hbegun := h.beginPass hext (.inr rfl)
  have hlinear := h.runBy.isLinear
  have hidle : ∀ other ≠ l, u.isTriggered other = false := fun other hother => by
    rw [hext.isTriggered_seen hother, LoopTable.isTriggered_idled]
  have hruns : ∀ id, U id → .node id ∈ plan.order → p.graph.isCombinational id = false →
      q'.graph.runs plan .catchUp id = false := fun id hU hid hsequential =>
    hquiet.runs (hbegun.spares.of_peers hbegun.graphs.peers) hidle hlinear hq hU hid
      ((hbegun.graphs.peers.isCombinational id).trans hsequential)
  refine ⟨walk_extra hbegun.graphs hbegun.runBy' hq hruns, ?_, h.spares, ?_, hbegun.runBy,
    walk_runBy hbegun.runBy' hq, fun id hU hid => ?_⟩
  · rw [(walk_samePass hq).loops]
    exact hext
  · rw [(walk_settles hlinear hq).delta]
    exact h.delta
  · obtain ⟨n, hn⟩ := Option.isSome_iff_exists.mp (h.runBy'.node_mem.mp hid)
    exact (hbegun.beside id hU hid).extra hlinear hid hq hn (hruns id hU hid)

end Escorted

/-- When the first frame has caught up, the passes of the second that remain make no difference. -/
theorem CaughtUp.surplus (hq : q.CaughtUp plan limit q') (h : Escorted timed l U plan p q)
    (hsettled : p.graph.loops.catchUp? = none)
    (hquiet : ∀ start ∈ catchUpStarts plan limit q, start.Quiet plan U) :
    ∃ loops, loops.settle = p.graph.loops.settle ∧
      Escorted timed l U plan (p.withLoops loops) q' := by
  induction hq generalizing p with
  | done => exact ⟨p.graph.loops, rfl, h⟩
  | pass behind walked rest ih =>
    rw [catchUpStarts_of_walk behind walked] at hquiet
    obtain ⟨hfirst, hlater⟩ := List.forall_mem_cons.mp hquiet
    -- meanwhile the loops of the first frame stand idle, which settling undoes
    obtain ⟨loops, hsettle, hlast⟩ := ih (h.surplus hsettled behind walked hfirst)
      (LoopTable.idled_catchUp? hsettled) hlater
    exact ⟨loops, hsettle.trans (LoopTable.settle_idled _), hlast⟩

/-- The second frame catches up in the passes of the first and then in those that remain. -/
theorem CaughtUp.escorted (hp : p.CaughtUp plan limit p') (hq : q.CaughtUp plan limit q')
    (h : Escorted timed l U plan p q) (hblind : Overlooks timed l β)
    (hquiet : ∀ start ∈ (catchUpStarts plan limit q).drop (catchUpStarts plan limit p).length,
      start.Quiet plan U) :
    ∃ loops, loops.settle = p'.graph.loops.settle ∧
      Escorted timed l U plan (p'.withLoops loops) q' := by
  induction hp generalizing q with
  | done settled =>
    rw [catchUpStarts_of_none settled] at hquiet
    exact hq.surplus h settled hquiet
  | pass behind walked rest ih =>
    -- as long as the first frame is behind, so is the second, and both take a pass
    obtain ⟨_, behind', hext⟩ := h.loops.catchUp_seen behind
    cases hq with
    | done settled =>
      rw [behind'] at settled
      cases settled
    | pass other walked' rest' =>
      obtain rfl := Option.some.inj (behind'.symm.trans other)
      rw [catchUpStarts_of_walk behind walked, catchUpStarts_of_walk behind' walked'] at hquiet
      exact ih rest' ((h.beginPass hext (.inl rfl)).walk hblind walked walked') hquiet

end Progress

/-! ### Frames -/

open FrameGraph.Graph

/-- Both frames complete, and of the node they report the same: whether it was executed or skipped,
and, if it is not combinational, how often it was invoked and on which steps. Such a node also
holds the same when they end. -/
def Frame.AlikeAt (id : NodeId) (f f' : Frame β) : Prop :=
  ∃ r r', f.outcome.answer = .ok r ∧ f'.outcome.answer = .ok r' ∧
    (id ∈ r'.executed ↔ id ∈ r.executed) ∧ (id ∈ r'.skipped ↔ id ∈ r.skipped) ∧
    (f.graph.isCombinational id = false →
      r'.invocations.count id = r.invocations.count id ∧
      turns id f'.outcome.journal.toList = turns id f.outcome.journal.toList ∧
      HoldsAlike f.outcome.graph f'.outcome.graph id)

/-- In those passes of the second frame that come after the last of the first, the gates of the
nodes of the set are closed. -/
def Frame.Quiet (plan : Plan) (U : NodeId → Prop) (f f' : Frame β) : Prop :=
  ∀ start ∈ (f'.graph.passStarts plan f'.delta).drop (f.graph.passStarts plan f.delta).length,
    start.2.Quiet plan U

theorem Frame.Quiet.catchUpStarts {plan : Plan} {U : NodeId → Prop} {f f' : Frame β}
    (h : Frame.Quiet plan U f f') {main main' : Progress β}
    (hwalk : (f.graph.opening f.delta).walk plan .main plan.order = (main, none))
    (hwalk' : (f'.graph.opening f'.delta).walk plan .main plan.order = (main', none)) :
    ∀ start ∈ (Progress.catchUpStarts plan passLimit main').drop
      (Progress.catchUpStarts plan passLimit main).length, start.Quiet plan U := by
  intro start hstart
  refine h (.catchUp, start) ?_
  rw [passStarts, passStarts, hwalk, hwalk', List.length_cons, List.length_map,
    List.drop_succ_cons, ← List.map_drop]
  exact List.mem_map_of_mem hstart

def Frame.isQuiet (plan : Plan) (f f' : Frame β) : Bool :=
  ((f'.graph.passStarts plan f'.delta).drop (f.graph.passStarts plan f.delta).length).all
    fun start => f.graph.dependencies.all fun c => (plan.gateSource? c.sink).all fun source =>
      !(start.2.atTurn plan .catchUp (.node c.sink)).graph.readGate source

theorem Frame.quiet_of_isQuiet {plan : Plan} {f f' : Frame β} (hf : f.graph.RunBy plan)
    (h : f.isQuiet plan f' = true) (U : NodeId → Prop) : f.Quiet plan U f' := by
  intro start hstart id _ _ source hsource
  obtain ⟨c, hc, rfl, _⟩ := feeder?_source (hf.gate id ▸ hsource)
  have hgates := List.all_eq_true.mp (List.all_eq_true.mp h start hstart) c hc
  rw [hsource, Option.all_some] at hgates
  simpa using hgates

namespace Graph

variable {g h : Graph β} {plan : Plan} {l : LoopId} {U : NodeId → Prop} {timed : Bool}

theorem Accompanied.escorted (hacc : Accompanied l U g h)
    (hext : (g.loops.seen timed).Extends l (h.loops.seen timed)) (hg : g.Ready plan)
    (hh : h.Ready plan) (override : Option Float) :
    (g.opening override).Escorted timed l U plan (h.opening override) := by
  obtain ⟨_, hreport⟩ := hacc.peers.opening override
  have hturns (k : Graph β) (id : NodeId) : (k.opening override).turns id = [] :=
    k.opening_filterMap override (Event.turn? id) fun _ => rfl
  refine ⟨hacc.opening override, ?_, hacc.unnamed.opening override, congrArg _ hreport,
    hg.runBy.of_sameShape (g.opening_sameShape override),
    hh.runBy.of_sameShape (h.opening_sameShape override), fun id _ _ => ?_⟩
  · rw [opening_loops, opening_loops, hreport, hacc.peers.frame, LoopTable.update_seen,
      LoopTable.update_seen, LoopTable.setFrame_seen, LoopTable.setFrame_seen]
    exact (hext.setFrame _).update _
  · refine ⟨by rw [hreport], by rw [hreport], .nil, .nil, fun _ => ⟨by rw [hreport], ?_⟩⟩
    rw [hturns, hturns]

/-- A frame with the further loop beside the same frame without. -/
theorem Accompanied.execute (hacc : Accompanied l U g h)
    (hext : (g.loops.seen timed).Extends l (h.loops.seen timed)) (hg : g.Ready plan)
    (hh : h.Ready plan) (hblind : Overlooks timed l β) {override : Option Float}
    {watch watch' : Stopwatch}
    (htimes : timed = true → Frame.SameTimes (· ≠ l) ⟨g, override, watch⟩ ⟨h, override, watch'⟩)
    (hok : ∃ r, (g.execute override watch).answer = .ok r)
    (hok' : ∃ r, (h.execute override watch').answer = .ok r)
    (hquiet : Frame.Quiet plan U ⟨g, override, watch⟩ ⟨h, override, watch'⟩) :
    Accompanied l U (g.execute override watch).graph (h.execute override watch').graph ∧
      ((g.execute override watch).graph.loops.seen timed).Extends l
        ((h.execute override watch').graph.loops.seen timed) ∧
      ∀ id, U id → .node id ∈ plan.order →
        Frame.AlikeAt id ⟨g, override, watch⟩ ⟨h, override, watch'⟩ := by
  obtain ⟨r, hok⟩ := hok
  obtain ⟨r', hok'⟩ := hok'
  obtain ⟨main, last, hwalk, hcaught, hr, hgraph, hjournal⟩ := hg.passes hok
  obtain ⟨main', last', hwalk', hcaught', hr', hgraph', hjournal'⟩ := hh.passes hok'
  have hmain := (hacc.escorted hext hg hh override).walk hblind hwalk hwalk'
  obtain ⟨loops, hsettle, hlast⟩ :=
    hcaught.escorted hcaught' hmain hblind (hquiet.catchUpStarts hwalk hwalk')
  have hafter : Accompanied l U (g.execute override watch).graph
      (h.execute override watch').graph := by
    rw [hgraph, hgraph']
    exact hlast.graphs.withLoops (last.settled watch).loops (last'.settled watch').loops
  refine ⟨hafter, .of_untimed ?_ htimes, fun id hU hid => ?_⟩
  · rw [hgraph, hgraph', settled_untimed, settled_untimed, ← hsettle, ← LoopTable.settle_untimed,
      ← LoopTable.settle_untimed]
    exact hlast.loops.untimed.settle
  · obtain ⟨hexecuted, hskipped, _, _, hfollowed⟩ := hlast.beside id hU hid
    have hkept : (g.execute override watch).graph.isCombinational id = g.isCombinational id :=
      hg.execute_sameShape.isCombinational id
    refine ⟨r, r', hok, hok', hr ▸ hr' ▸ hexecuted, hr ▸ hr' ▸ hskipped, fun hsequential => ?_⟩
    have hsequential' := hkept.trans hsequential
    obtain ⟨hcount, hsame⟩ := hfollowed (by rw [hgraph] at hsequential'; exact hsequential')
    refine ⟨hr ▸ hr' ▸ hcount, ?_, (hafter.nodes id hU).resolve_right fun hcombinational =>
      Bool.false_ne_true (hsequential'.symm.trans hcombinational.1)⟩
    change turns id (h.execute override watch').journal.toList =
      turns id (g.execute override watch).journal.toList
    rw [hjournal, hjournal', last.turns_completed, last'.turns_completed]
    exact hsame

theorem Accompanied.frames (hacc : Accompanied l U g h)
    (hext : (g.loops.seen timed).Extends l (h.loops.seen timed)) (hg : g.Ready plan)
    (hh : h.Ready plan) (hblind : Overlooks timed l β) {id : NodeId} (hU : U id)
    (hid : .node id ∈ plan.order) (w w' : Nat → Stopwatch) (beats : List Beat)
    (htimes : timed = true →
      List.Forall₂ (Frame.SameTimes (· ≠ l)) (g.frames w beats) (h.frames w' beats))
    (hok : ∀ f ∈ g.frames w beats, ∃ r, f.outcome.answer = .ok r)
    (hok' : ∀ f ∈ h.frames w' beats, ∃ r, f.outcome.answer = .ok r)
    (hquiet : List.Forall₂ (Frame.Quiet plan U) (g.frames w beats) (h.frames w' beats)) :
    List.Forall₂ (Frame.AlikeAt id) (g.frames w beats) (h.frames w' beats) := by
  induction beats generalizing g h w w' with
  | nil => exact .nil
  | cons beat rest ih =>
    obtain ⟨hfirst, hrest⟩ := List.forall_mem_cons.mp hok
    obtain ⟨hfirst', hrest'⟩ := List.forall_mem_cons.mp hok'
    obtain ⟨hquiet, hlater⟩ := List.forall₂_cons.mp hquiet
    have hwaited : ((g.wait beat.elapsed).loops.seen timed).Extends l
        ((h.wait beat.elapsed).loops.seen timed) := by
      rw [wait_eq, wait_eq]
      exact hext
    obtain ⟨hafter, hloops, halike⟩ := (hacc.wait beat.elapsed).execute hwaited
      (hg.wait beat.elapsed) (hh.wait beat.elapsed) hblind
      (fun ht => (List.forall₂_cons.mp (htimes ht)).1) hfirst hfirst' hquiet
    exact .cons (halike id hU hid) (ih hafter hloops (hg.wait beat.elapsed).execute
      (hh.wait beat.elapsed).execute _ _ (fun ht => (List.forall₂_cons.mp (htimes ht)).2) hrest
      hrest' hlater)

/-- A further loop that no bridge names and no behavior looks at is not noticed by a node unless its
passes disturb the node. Take the frames that a compiled graph whose combinational nodes are pure
executes with and without the loop, all of them complete, whatever time their invocations take. If
in the passes that are there for the loop alone the gates of the node and of all nodes that feed it
are closed, and if behaviors do not look at measured times, or both runs measure the same for the
other loops, then each frame does with the node what it does without the loop. -/
theorem Reachable.bystander_frames (hg : Reachable g) (hplan : g.plan = some plan)
    (hcurrent : g.isOutdated = false) {config : LoopConfig Float}
    (hregister : g.registerLoop config = (h, .ok l)) (hunnamed : g.Unnamed l)
    (hblind : LoopBlind l β) (hcustom : g.CustomPure l) (w w' : Nat → Stopwatch)
    (beats : List Beat)
    (htimes : TimeBlind β ∨
      List.Forall₂ (Frame.SameTimes (· ≠ l)) (g.frames w beats) (h.frames w' beats))
    (hok : ∀ f ∈ g.frames w beats, ∃ r, f.outcome.answer = .ok r)
    (hok' : ∀ f ∈ h.frames w' beats, ∃ r, f.outcome.answer = .ok r) {id : NodeId}
    (hlive : (g.node? id).isSome)
    (hquiet : List.Forall₂ (Frame.Quiet plan fun m => Relation.ReflTransGen g.Feeds m id)
      (g.frames w beats) (h.frames w' beats)) :
    List.Forall₂ (Frame.AlikeAt id) (g.frames w beats) (h.frames w' beats) := by
  obtain ⟨loops, hr, rfl⟩ := registerLoop_eq_ok hregister
  have hready := hg.ready hplan hcurrent
  have hready' : ({ g with loops } : Graph β).Ready plan :=
    hready.of_sameShape (.timing g loops g.timer g.frame)
  -- with a node its producers feed the one in question too, and before the first frame both graphs
  -- hold the same everywhere
  have hacc : Accompanied l (fun m => Relation.ReflTransGen g.Feeds m id) g { g with loops } :=
    ⟨⟨rfl, rfl, rfl, rfl, rfl⟩, fun c hc hfeeds => .head ⟨c, hc, rfl, rfl⟩ hfeeds, hg.filled,
      hg.filled, hunnamed, hg.pure hunnamed hcustom, fun _ _ => .inl rfl⟩
  obtain ⟨timed, hunlooked, hmeasured⟩ := exists_sight htimes
  exact hacc.frames ((LoopTable.register_extends hr).seen timed) hready hready'
    (hblind.overlooks hunlooked) .refl (hready.runBy.node_mem.mpr hlive) w w' beats hmeasured hok
    hok' hquiet

def relayGated (g : Graph Script) (source : NodeId) : Graph Script :=
  (Command.run (Command.run g (.connect ⟨source, .data 0, ⟨2⟩, .gate⟩)).graph .compile).graph

def doubleTime : LoopConfig Float where
  name := "audio"
  timestep := 0.0625
  cap := 0.25

def relayTimed : Graph Script := relayGated relay ⟨3⟩

def joined (g : Graph β) : Graph β := (g.registerLoop doubleTime).1

omit [Behavior β] in
theorem registerLoop_joined (hid : (g.registerLoop doubleTime).2.toOption = some l) :
    g.registerLoop doubleTime = (g.joined, .ok l) := by
  refine Prod.ext rfl ?_
  cases hanswer : (g.registerLoop doubleTime).2 with
  | error e =>
    rw [hanswer] at hid
    cases hid
  | ok id =>
    rw [hanswer] at hid
    exact congrArg Except.ok (Option.some.inj hid)

omit [Behavior β] in
theorem unnamed_of_forall (h : ∀ n ∈ g.nodes, n.loop? ≠ some l) : g.Unnamed l :=
  fun n hn _ => h n hn

/-- Two further passes go unnoticed by the last pass of the relay, whose gate is closed in both, and
so do other measured times. -/
theorem relay_bystander : ∃ plan, relayTimed.plan = some plan ∧
    relayTimed.registerLoop doubleTime = (relayTimed.joined, .ok ⟨1⟩) ∧
    (relayTimed.execute (some 0.25)).answer.toOption.map FrameReport.catchUpPasses = some 1 ∧
    (relayTimed.joined.execute (some 0.25)).answer.toOption.map FrameReport.catchUpPasses =
      some 3 ∧
    List.Forall₂ (Frame.AlikeAt ⟨2⟩) (relayTimed.frames (relayWatches 1) relayBeats)
      (relayTimed.joined.frames (relayWatches 2) relayBeats) := by
  obtain ⟨plan, hplan, hcurrent⟩ :=
    isCompiled_iff.mp (by decide +kernel : relayTimed.isCompiled = true)
  have hinstalled : relayTimed.plan.getD {} = plan := by
    rw [hplan]
    rfl
  have hreachable : Reachable relayTimed := (relay_reachable.run _).run _
  have hregister : relayTimed.registerLoop doubleTime = (relayTimed.joined, .ok ⟨1⟩) :=
    registerLoop_joined (by decide +kernel)
  have hok : (relayTimed.frames (relayWatches 1) relayBeats).all Frame.isOk = true := by
    decide +kernel
  have hok' : (relayTimed.joined.frames (relayWatches 2) relayBeats).all Frame.isOk = true := by
    decide +kernel
  have hquiet : ((relayTimed.frames (relayWatches 1) relayBeats).zip
      (relayTimed.joined.frames (relayWatches 2) relayBeats)).all
        (fun pair => pair.1.isQuiet (relayTimed.plan.getD {}) pair.2) = true := by decide +kernel
  have hready := hreachable.ready hplan hcurrent
  rw [hinstalled] at hquiet
  refine ⟨plan, hplan, hregister, by decide +kernel, by decide +kernel,
    hreachable.bystander_frames hplan hcurrent hregister
      (unnamed_of_forall (by decide +kernel)) (Script.blindTo _)
      (.of_builtIn (by decide +kernel)) _ _ _ (.inl (Script.blindTo _))
      (fun f hf => Frame.isOk_iff.mp (List.all_eq_true.mp hok f hf))
      (fun f hf => Frame.isOk_iff.mp (List.all_eq_true.mp hok' f hf)) (by decide +kernel)
      (List.forall₂_iff_zip.mpr ⟨by rw [length_frames, length_frames], fun {f f'} hmem => ?_⟩)⟩
  exact Frame.quiet_of_isQuiet (hready.frames _ _ f (List.of_mem_zip hmem).1).runBy
    (List.all_eq_true.mp hquiet (f, f') hmem) _

/-- The relay with its last pass gated by a constant that is true. -/
def relayOpened : Graph Script :=
  relayGated (Command.run relay (.addConstant "enabled" true)).graph ⟨4⟩

/-- A compiled graph takes in the loop in double time under this number; no bridge names it. -/
structure TakesIn (g : Graph β) (l : LoopId) : Prop where
  reachable : Reachable g
  compiled : g.isCompiled = true
  register : g.registerLoop doubleTime = (g.joined, .ok l)
  unnamed : g.Unnamed l
  pure : g.CustomPure l

/-- A behavior that shows how many loops it sees. -/
structure Census where

instance : Behavior Census where
  act self c := .put self 0 (.int (.ofNat (c.loops.elim 0 LoopTable.size)))

def census : Graph Census :=
  let typed := (Command.run ({} : Graph Census) (.registerType {
    name := "Census"
    outputs := [{ name := "loops", type := .int }]
    features := { loopAccess := true }
    work := some (.custom {}) })).graph
  (Command.run (Command.run typed (.create ⟨3⟩ "census")).graph .compile).graph

/-- A behavior that shows the measured time of the first loop. -/
structure Dial where

instance : Behavior Dial where
  act self c :=
    .put self 0 (.float (.ofFloat ((c.loops.bind fun t => t.get? ⟨0⟩).elim 0 Loop.millis)))

theorem Dial.loopBlind : LoopBlind ⟨1⟩ Dial := by
  intro dial c t u hc hext
  have hfirst : u.get? ⟨0⟩ = t.get? ⟨0⟩ := hext.get? (by decide)
  simp only [Behavior.act, hc, Option.bind_some, hfirst, Activity.Alike.refl]

/-- The first loop drives a node that shows the time which its turns took in the frame before. -/
def dial : Graph Dial :=
  let looped := (Command.run ({} : Graph Dial)
    (.registerLoop { name := "physics", timestep := 0.125, cap := 0.25 })).graph
  let typed := (Command.run looped (.registerType {
    name := "Dial"
    outputs := [{ name := "time", type := .float }]
    features := { loopAccess := true }
    work := some (.custom {}) })).graph
  let created := (Command.run typed (.create ⟨3⟩ "dial")).graph
  let bridged := (Command.run created (.addBridge "rate" ⟨0⟩)).graph
  (Command.run (Command.run bridged (.connect ⟨⟨1⟩, .loopOut, ⟨0⟩, .loopIn⟩)).graph .compile).graph

/-- Three ways to notice the loop. A pass whose gate is open in the further passes runs in them too:
without the loop in double time twice in a quarter of a second, with it four times. A behavior that
looks at all loops sees one more. And a behavior that shows a measured time shows that of its own
run, in which the turns of the node may take longer. -/
theorem relay_disturbed :
    (relayOpened.TakesIn ⟨1⟩ ∧ LoopBlind ⟨1⟩ Script ∧ relayOpened.isCombinational ⟨2⟩ = false ∧
      (relayOpened.execute (some 0.25)).answer.toOption.map
        (fun r => r.invocations.count ⟨2⟩) = some 2 ∧
      (relayOpened.joined.execute (some 0.25)).answer.toOption.map
        (fun r => r.invocations.count ⟨2⟩) = some 4) ∧
    (census.TakesIn ⟨0⟩ ∧ census.isCombinational ⟨0⟩ = false ∧
      ((census.execute (some 0.25)).graph.node? ⟨0⟩).map Node.outputs = some [.int 0] ∧
      ((census.joined.execute (some 0.25)).graph.node? ⟨0⟩).map Node.outputs = some [.int 1]) ∧
    dial.TakesIn ⟨1⟩ ∧ LoopBlind ⟨1⟩ Dial ∧ dial.isCombinational ⟨0⟩ = false ∧
      (((dial.execute (some 0.25) (relayWatches 1 0)).graph.execute (some 0.25)).graph.node?
        ⟨0⟩).map Node.outputs = some [.float (.ofFloat 4)] ∧
      (((dial.joined.execute (some 0.25) (relayWatches 2 0)).graph.execute
        (some 0.25)).graph.node? ⟨0⟩).map Node.outputs = some [.float (.ofFloat 6)] := by
  have hopened : relayOpened.TakesIn ⟨1⟩ :=
    ⟨((relay_reachable.run _).run _).run _, by decide +kernel,
      registerLoop_joined (by decide +kernel), unnamed_of_forall (by decide +kernel),
      .of_builtIn (by decide +kernel)⟩
  have hcensus : census.TakesIn ⟨0⟩ :=
    ⟨(((Reachable.new _ _).run _).run _).run _, by decide +kernel,
      registerLoop_joined (by decide +kernel), unnamed_of_forall (by decide +kernel),
      .of_builtIn (by decide +kernel)⟩
  have hdial : dial.TakesIn ⟨1⟩ :=
    ⟨((((((Reachable.new _ _).run _).run _).run _).run _).run _).run _, by decide +kernel,
      registerLoop_joined (by decide +kernel), unnamed_of_forall (by decide +kernel),
      .of_builtIn (by decide +kernel)⟩
  exact ⟨⟨hopened, Script.blindTo _, by decide +kernel, by decide +kernel, by decide +kernel⟩,
    ⟨hcensus, by decide +kernel, by decide +kernel, by decide +kernel⟩,
    hdial, Dial.loopBlind, by decide +kernel, by decide +kernel, by decide +kernel⟩

end Graph

end FrameGraph
