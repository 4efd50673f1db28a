import Mathlib.Data.List.Find
import FrameGraph.Proofs.Frame.Attendance
import FrameGraph.Proofs.Graph.Peers
import FrameGraph.Proofs.Graph.Purity
import FrameGraph.Proofs.Loop.Untimed

/-! Two passes over peers, side by side, each with its own plan. At its turn a node sees what its
producers hold, directly or through transfers, so where two passes agree on the producers of a
node they agree on what the node sees. From there it goes from producers to consumers: the
passes agree on every set of nodes that holds with each node its producers, if the nodes of
the set make the same of the same values. -/

namespace FrameGraph

variable {β γ : Type}

/-! ### Activities -/

namespace Activity

def Result.effect (r : Result β) : β × List Value × Option NodeError :=
  (r.next, r.outputs, r.failure)

/-- Activities that differ at most in their notes. -/
def Alike (a b : Activity β) : Prop :=
  ∀ ports outputs, (b.run ports outputs).effect = (a.run ports outputs).effect

theorem Alike.refl (a : Activity β) : a.Alike a := fun _ _ => rfl

theorem Alike.trans {a b c : Activity β} (hab : a.Alike b) (hbc : b.Alike c) : a.Alike c :=
  fun ports outputs => (hbc ports outputs).trans (hab ports outputs)

theorem Alike.write {index : Nat} {value : Value} {a b : Option NodeError → Activity β}
    (h : ∀ refusal, (a refusal).Alike (b refusal)) :
    (Activity.write index value a).Alike (.write index value b) := by
  intro ports outputs
  simp only [run]
  split <;> exact h _ _ _

theorem Alike.read {index : Nat} {a b : Option Value → Activity β}
    (h : ∀ value, (a value).Alike (b value)) : (Activity.read index a).Alike (.read index b) :=
  fun ports outputs => h outputs[index]? ports outputs

theorem Alike.note {remark other : Note} {a b : Activity β} (h : a.Alike b) :
    (Activity.note remark a).Alike (.note other b) := h

theorem Alike.map (f : β → γ) {a b : Activity β} (h : a.Alike b) : (a.map f).Alike (b.map f) := by
  intro ports outputs
  have heffect := h ports outputs
  simp only [Result.effect, Prod.mk.injEq] at heffect
  simp only [run_map, Result.effect, heffect]

end Activity

theorem Node.act_held [Behavior β] {type : Option (NodeType β)} {c d : Context} {m n : Node β}
    (hheld : n.held = m.held)
    (halike : ∀ work, m.work = some work → (Behavior.act work c).Alike (Behavior.act work d)) :
    (n.act type d).1.held = (m.act type c).1.held ∧ (n.act type d).2 = (m.act type c).2 := by
  obtain ⟨hwork, houtputs⟩ := Prod.mk.inj hheld
  unfold act
  rw [hwork, houtputs]
  cases hm : m.work with
  | none => exact ⟨hheld, rfl⟩
  | some work =>
    cases type with
    | none => exact ⟨hheld, rfl⟩
    | some type =>
      have heffect := halike work hm type.outputs m.outputs
      simp only [Activity.Result.effect, Prod.mk.injEq] at heffect
      simp only [held, heffect, and_self]

/-! ### Behaviors -/

/-- Behaviors that see the one table of loops or the other differ in their notes at most. -/
def BlindTo (R : LoopTable Float → LoopTable Float → Prop) (β : Type) [Behavior β] : Prop :=
  ∀ (behavior : β) (c : Context) (t u : LoopTable Float), c.loops = some t → R t u →
    (Behavior.act behavior c).Alike (Behavior.act behavior { c with loops := some u })

/-- What a behavior does depends on measured times in its notes at most. -/
def TimeBlind (β : Type) [Behavior β] : Prop := BlindTo (fun t u => u.untimed = t.untimed) β

/-- Behaviors look at no more of a table of loops than is seen of it, with measured times or
without. -/
def Sees (timed : Bool) (β : Type) [Behavior β] : Prop :=
  BlindTo (fun t u => u.seen timed = t.seen timed) β

section BlindTo

variable [Behavior β] {R : LoopTable Float → LoopTable Float → Prop} {t u : LoopTable Float}

/-- Of a table of loops built-in work looks at the flag of the loop that it names. -/
theorem BlindTo.work (h : BlindTo R β) {work : Work β} {c : Context} (hc : c.loops = some t)
    (htables : R t u) (hflag : work = .bridge → ∀ named,
      (c.params.get? loopParam).bind Value.asLoop = some named →
        u.isTriggered named = t.isTriggered named) :
    (Behavior.act work c).Alike (Behavior.act work { c with loops := some u }) := by
  by_cases hcustom : ∃ behavior, work = .custom behavior
  · obtain ⟨behavior, rfl⟩ := hcustom
    exact (h behavior c t u hc htables).map _
  · have hsame : Behavior.act work { c with loops := some u } = Behavior.act work c :=
      Work.act_builtIn_congr (fun behavior heq => hcustom ⟨behavior, heq⟩) rfl rfl
        fun hbridge named hnamed => by
          simpa only [Context.flag, hc, Option.any_some] using hflag hbridge named hnamed
    rw [hsame]
    exact .refl _

theorem Sees.of_timeBlind {timed : Bool} (h : timed = false → TimeBlind β) : Sees timed β := by
  cases timed with
  | true =>
    intro behavior c t u hc heq
    obtain rfl : u = t := heq
    rw [← hc]
    exact .refl _
  | false => exact h rfl

/-- Behaviors that do not look at measured times are compared on the tables without the times; where
they may look at them, the times have to be the same. -/
theorem exists_sight {p : Prop} (h : TimeBlind β ∨ p) :
    ∃ timed, (timed = false → TimeBlind β) ∧ (timed = true → p) :=
  h.elim (fun hblind => ⟨false, fun _ => hblind, nofun⟩) fun hp => ⟨true, nofun, fun _ => hp⟩

end BlindTo

/-! ### Turns -/

namespace Progress

open FrameGraph.Graph

variable [Behavior β] {plan other : Plan} {pass : Pass} {p q p' q' : Progress β} {id : NodeId}
  {m n : Node β} {steps : List Step}

/-- A state shows the turn of a node: it is in its place, and its gate and inputs read the outputs
that are connected to them. -/
structure Shows (p : Progress β) (plan : Plan) (pass : Pass) (id : NodeId) (n : Node β) : Prop where
  seated : (p.graph.node? id).map Node.seated = some n.seated
  gate : plan.gateSource? id = p.graph.feeder? id .gate
  inputs : (p.context plan pass id n).inputs =
    p.graph.supplied id (((p.graph.type? n.type).map fun t => t.inputs.length).getD 0)

theorem walk_runBy (hrun : p.graph.RunBy plan) (h : p.walk other pass steps = (q, none)) :
    q.graph.RunBy plan := hrun.of_sameShape (walk_sameShape h)

/-- A transfer that had its turn is as good as the output that it carries. -/
theorem Settles.read_brings (h : Settles plan pass steps p q)
    (hlength : p.graph.carried.length = plan.transfers.length) {source output : Source}
    (hbrings : plan.Brings source output) (hmem : source.origin.1 ∈ steps) :
    q.graph.read source = q.graph.read output := by
  rcases hbrings with rfl | ⟨t, transfer, rfl, htransfer, rfl⟩
  · rfl
  · obtain ⟨hlt, _⟩ := List.getElem?_eq_some_iff.mp htransfer
    rw [← hlength] at hlt
    have hcarried : q.graph.carried[t]? = p.graph.carried[t]?.map fun _ => q.copied plan t :=
      h.at_mem _ hmem
    rw [List.getElem?_eq_getElem hlt, Option.map_some] at hcarried
    change q.graph.carried.getD t .empty = _
    rw [List.getD_eq_getElem?_getD, hcarried, copied, htransfer]
    rfl

theorem Settles.shows (h : Settles plan pass steps p q) (hrun : p.graph.RunBy plan)
    (hmem : ∀ a, plan.DependsOn (.node id) a → a ∈ steps) (hn : p.graph.node? id = some n) :
    q.Shows plan pass id n := by
  refine ⟨by rw [h.same.node?, hn]; rfl, by rw [h.same.feeder?, hrun.gate], ?_⟩
  refine List.map_congr_left fun input _ => ?_
  rw [h.same.feeder?]
  have hinput := hrun.input id input
  generalize p.graph.feeder? id (.data input) = feeder at hinput ⊢
  cases hsource : plan.inputSource? id input with
  | none =>
    rw [hsource] at hinput
    cases hinput
    rfl
  | some source =>
    rw [hsource] at hinput
    cases hinput with
    | some hbrings =>
      exact congrArg (fun value => (some value).getD Value.empty)
        (h.read_brings hrun.carried hbrings (hmem _ ⟨_, .input hsource, rfl⟩))

/-- Two states are level at a node: both show it, and its producers hold the same in both. -/
structure Level (p q : Progress β) (plan other : Plan) (pass : Pass) (id : NodeId) (m n : Node β) :
    Prop where
  peers : Peers p.graph q.graph
  shows : p.Shows plan pass id m
  shows' : q.Shows other pass id n
  delta : q.report.delta = p.report.delta
  producers : ∀ c ∈ p.graph.dependencies, c.sink = id → HoldsAlike p.graph q.graph c.source

omit [Behavior β] in
theorem Level.station (h : Level p q plan other pass id m n) : n.station = m.station := by
  have hnode := h.peers.node? id
  have hseated (k : Graph β) : (k.node? id).map Node.station =
      ((k.node? id).map Node.seated).map Node.station := by
    rw [Option.map_map]
    rfl
  rw [hseated, hseated, h.shows.seated, h.shows'.seated] at hnode
  exact Option.some.inj hnode

omit [Behavior β] in
theorem Level.type? (h : Level p q plan other pass id m n) :
    q.graph.type? n.type = p.graph.type? m.type := by
  have htype : n.type = m.type := (congrArg Node.type h.station :)
  rw [h.peers.type?, htype]

omit [Behavior β] in
theorem Level.subscriptions (h : Level p q plan other pass id m n) :
    n.subscriptions = m.subscriptions := (congrArg Node.subscriptions h.station :)

omit [Behavior β] in
theorem Shows.any_node? (h : p.Shows plan pass id m) {f : Node β → Bool}
    (hf : ∀ n : Node β, f n.seated = f n) : (p.graph.node? id).any f = f m := by
  obtain ⟨placed, hplaced, hseated⟩ := Option.map_eq_some_iff.mp h.seated
  rw [hplaced, Option.any_some, ← hf, hseated, hf]

omit [Behavior β] in
/-- Where its loops are the same, measured times apart, a node runs in both states or in neither. -/
theorem Level.runs (h : Level p q plan other pass id m n)
    (hloops : ∀ l ∈ m.subscriptions,
      q.graph.loops.untimed.get? l = p.graph.loops.untimed.get? l) :
    q.graph.runs other pass id = p.graph.runs plan pass id := by
  rw [runs_eq, runs_eq, h.peers.isCombinational id, h.shows.gate, h.shows'.gate, h.peers.feeder?]
  congr 1
  cases hgate : p.graph.feeder? id .gate with
  | some source => simp only [readGate, read_feeder h.producers hgate]
  | none =>
    have hdriven : m.subscriptions.any q.graph.loops.isTriggered =
        m.subscriptions.any p.graph.loops.isTriggered := by
      rw [Bool.eq_iff_iff, List.any_eq_true, List.any_eq_true]
      refine exists_congr fun l => and_congr_right fun hl => ?_
      rw [LoopTable.isTriggered_congr (hloops l hl)]
    dsimp only
    rw [h.shows.any_node? fun _ => rfl, h.shows'.any_node? fun _ => rfl, isDriven, isDriven,
      h.subscriptions, hdriven]

omit [Behavior β] in
theorem timing_eq (p : Progress β) (pass : Pass) (n : Node β) : p.timing pass n =
    ((p.graph.drivingLoop? n).bind fun l => (p.graph.loops.get? l).map fun s =>
      (⟨some l, s.delta, s.steps, pass = .catchUp⟩ : Timing)).getD
        ⟨none, p.report.delta, p.graph.frame, pass = .catchUp⟩ := by
  unfold timing
  cases p.graph.drivingLoop? n with
  | none => rfl
  | some l => cases hl : p.graph.loops.get? l <;> simp [hl]

omit [Behavior β] in
theorem Level.timing (h : Level p q plan other pass id m n)
    (hloops : ∀ l ∈ m.subscriptions,
      q.graph.loops.untimed.get? l = p.graph.loops.untimed.get? l) :
    q.timing pass n = p.timing pass m := by
  have hdriving : q.graph.drivingLoop? n = p.graph.drivingLoop? m := by
    rw [drivingLoop?, drivingLoop?, h.subscriptions]
    exact List.find?_congr fun l hl => LoopTable.isTriggered_congr (hloops l hl)
  rw [timing_eq, timing_eq, hdriving, h.delta, h.peers.frame]
  cases hdrives : p.graph.drivingLoop? m with
  | none => rfl
  | some l =>
    have hl := hloops l (List.mem_of_find?_eq_some hdrives)
    rw [Option.bind_some, Option.bind_some, ← LoopTable.map_get?_untimed (fun _ => rfl), hl,
      LoopTable.map_get?_untimed fun _ => rfl]

omit [Behavior β] in
/-- Where its loops are the same, measured times apart, a node sees the same but for its device and
the table of loops, and sees that table in both states or in neither. -/
theorem Level.context (h : Level p q plan other pass id m n)
    (hloops : ∀ l ∈ m.subscriptions,
      q.graph.loops.untimed.get? l = p.graph.loops.untimed.get? l) :
    q.context other pass id n = { p.context plan pass id m with
        device := (q.context other pass id n).device } ∨
      (p.context plan pass id m).loops = some p.graph.loops ∧
      q.context other pass id n = { p.context plan pass id m with
        device := (q.context other pass id n).device
        loops := some q.graph.loops } := by
  have hname : n.name = m.name := (congrArg Node.name h.station :)
  have hparams : n.params = m.params := (congrArg Node.params h.station :)
  have hinputs : (q.context other pass id n).inputs = (p.context plan pass id m).inputs := by
    rw [h.shows'.inputs, h.shows.inputs, h.peers.supplied h.producers, h.type?]
  simp only [Progress.context, hname, h.peers.frame, h.timing hloops, hparams, h.type?]
    at hinputs ⊢
  rw [hinputs]
  split
  · exact .inr ⟨rfl, rfl⟩
  · exact .inl rfl

/-- Where its loops are the same, measured times apart, and what it may read of its device and the
table of loops makes no difference, a node's turn leaves the same in both states, and fails in both
or in neither. -/
theorem Level.turned_held (h : Level p q plan other pass id m n) (hheld : n.held = m.held)
    (hloops : ∀ l ∈ m.subscriptions,
      q.graph.loops.untimed.get? l = p.graph.loops.untimed.get? l)
    (halike : ∀ work, m.work = some work → (Behavior.act work (p.context plan pass id m)).Alike
      (Behavior.act work (q.context other pass id n))) :
    (q.turned other pass id n).1.held = (p.turned plan pass id m).1.held ∧
      (q.turned other pass id n).2 = (p.turned plan pass id m).2 := by
  rw [turned, turned, h.runs hloops, h.type?]
  split
  · exact Node.act_held hheld halike
  · exact ⟨hheld, rfl⟩

/-- Two passes over peers, of which the second may be under way, are level at a node if what it
depends on had its turn and its producers hold the same in both. -/
theorem Settles.level (hp : Settles plan pass plan.order p p') (hplan : p.graph.RunBy plan)
    (hq : Settles other pass steps q q') (hother : q.graph.RunBy other)
    (hpeers : Peers p.graph q.graph) (hdelta : q.report.delta = p.report.delta)
    (hid : .node id ∈ other.order) (hdepends : ∀ a, other.DependsOn (.node id) a → a ∈ steps)
    (hproducers : ∀ c ∈ p.graph.dependencies, c.sink = id → HoldsAlike p'.graph q'.graph c.source) :
    ∃ m n, p.graph.node? id = some m ∧ q.graph.node? id = some n ∧
      Level p' q' plan other pass id m n := by
  obtain ⟨n, hn⟩ := Option.isSome_iff_exists.mp (hother.node_mem.mp hid)
  have hlive := hpeers.node? id
  rw [hn] at hlive
  obtain ⟨m, hm, _⟩ := Option.map_eq_some_iff.mp hlive.symm
  have hmem : .node id ∈ plan.order := hplan.node_mem.mpr (by rw [hm]; rfl)
  obtain ⟨earlier, later, horder⟩ := List.append_of_mem hmem
  refine ⟨m, n, hm, hn, hpeers.samePass hp.same hq.same, hp.shows hplan (fun a ha => ?_) hm,
    hq.shows hother hdepends hn, ?_, ?_⟩
  · exact horder ▸ List.mem_append_left _ (hplan.mem_before _ _ _ horder a ha)
  · rw [hq.delta, hp.delta, hdelta]
  · rw [dependencies, hp.same.connections]
    exact hproducers

/-- Two passes over peers agree on a set of nodes that holds with each node its producers, if the
nodes of the set make the same of the same values. -/
theorem Settles.agree {rest : List Step} {U : NodeId → Prop}
    (hp : Settles plan pass plan.order p p') (hplan : p.graph.RunBy plan)
    (hq : Settles other pass steps q q') (hother : q.graph.RunBy other)
    (hsteps : other.order = steps ++ rest) (hpeers : Peers p.graph q.graph)
    (hdelta : q.report.delta = p.report.delta)
    (hclosed : ∀ c ∈ p.graph.dependencies, U c.sink → U c.source)
    (hturned : ∀ id m n, U id → p.graph.node? id = some m → q.graph.node? id = some n →
      Level p' q' plan other pass id m n →
      (q'.turned other pass id n).1.held = (p'.turned plan pass id m).1.held)
    (hU : U id) (hid : .node id ∈ steps) : HoldsAlike p'.graph q'.graph id := by
  refine hother.induct (motive := fun id => U id → .node id ∈ steps →
    HoldsAlike p'.graph q'.graph id) (fun id hmem ih hU hid => ?_)
    (hsteps ▸ List.mem_append_left rest hid) hU hid
  obtain ⟨before, after, hsplit⟩ := List.append_of_mem hid
  have horder := hsteps
  rw [hsplit, List.append_assoc, List.cons_append] at horder
  have hbefore {s : Step} (hs : s ∈ before) : s ∈ steps := hsplit ▸ List.mem_append_left _ hs
  obtain ⟨m, n, hm, hn, hlevel⟩ := hp.level hplan hq hother hpeers hdelta hmem
    (fun a ha => hbefore (hother.mem_before _ _ _ horder a ha)) fun c hc hsink => by
      have hc' : c ∈ q.graph.dependencies := hpeers.dependencies ▸ hc
      exact ih c hc' hsink (hclosed c hc (hsink ▸ hU))
        (hbefore (hother.producers _ _ _ horder c hc' hsink))
  have hpnode := (hp.at_mem _ (hplan.node_mem.mpr (by rw [hm]; rfl)) m hm).2
  have hqnode := (hq.at_mem _ hid n hn).2
  rw [HoldsAlike, hpnode, hqnode, Option.map_some, Option.map_some,
    hturned id m n hU hm hn hlevel]

end Progress

/-! ### Scripts -/

namespace Script

variable {a b : Activity Script}

theorem put_alike (self : Script) (output : Nat) (value : Value) (h : a.Alike b) :
    (self.put output value a).Alike (self.put output value b) := by
  refine .write fun refusal => ?_
  cases refusal with
  | none => exact h
  | some e => exact .refl _

theorem perform_alike (self : Script) (c : Context) (device : Device)
    (loops : Option (LoopTable Float)) (h : a.Alike b) (action : Action) :
    (self.perform c a action).Alike (self.perform { c with device, loops } b action) := by
  cases action with
  | trySet output value => exact .write fun _ => h
  | require output input =>
    simp only [perform]
    cases hinput : c.require input with
    | ok value =>
      have hinput' : Context.require { c with device, loops } input = .ok value := hinput
      rw [hinput']
      exact self.put_alike output value h
    | error e =>
      have hinput' : Context.require { c with device, loops } input = .error e := hinput
      rw [hinput']
      exact .refl _
  | bump output summand => exact .read fun _ => self.put_alike _ _ h
  | sample inputs => exact h.note
  | fail error invocation isCatchUp =>
    simp only [perform]
    split
    · exact .refl _
    · exact h
  | _ => exact self.put_alike _ _ h

/-- A script shows its device and the loops in samples only. -/
theorem act_alike (script : Script) (c : Context) (device : Device)
    (loops : Option (LoopTable Float)) :
    (Behavior.act script c).Alike (Behavior.act script { c with device, loops }) := by
  have hall (self : Script) (actions : List Action) : Activity.Alike
      (actions.foldr (fun action rest => self.perform c rest action) (.finish self none))
      (actions.foldr (fun action rest => self.perform { c with device, loops } rest action)
        (.finish self none)) := by
    induction actions with
    | nil => exact .refl _
    | cons action rest ih => exact self.perform_alike c device loops ih action
  exact hall _ _

theorem blindTo (R : LoopTable Float → LoopTable Float → Prop) : BlindTo R Script :=
  fun script c _ u _ _ => script.act_alike c c.device (some u)

end Script

end FrameGraph
