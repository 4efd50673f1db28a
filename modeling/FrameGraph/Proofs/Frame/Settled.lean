import FrameGraph.Proofs.Frame.Passes
import FrameGraph.Proofs.Plan.Linear

/-! What a pass leaves behind. Where no step reads what it or a later one writes, every step
finds the values with which the pass will end. So the end of a pass is described by
equations in which the order of the steps does not occur: each node whose turn it was is
what its work makes of it on the values at the end, and each transfer carries what its
source holds there. Conversely, from a state and values that meet the equations every order
of that kind leads to these values. -/

namespace FrameGraph

variable {β : Type}

/-! ### What two graphs hold -/

namespace Graph

/-- Two graphs hold the same where a step writes: the node, or the value that is carried. -/
def SameAt (g h : Graph β) : Step → Prop
  | .node id => h.node? id = g.node? id
  | .transfer t => h.carried[t]? = g.carried[t]?

variable {g h k : Graph β}

theorem SameAt.refl (g : Graph β) (s : Step) : SameAt g g s := by cases s <;> rfl

theorem SameAt.symm {s : Step} (hs : SameAt g h s) : SameAt h g s := by
  cases s <;> exact Eq.symm hs

theorem SameAt.trans {s : Step} (hgh : SameAt g h s) (hhk : SameAt h k s) : SameAt g k s := by
  cases s <;> exact Eq.trans hhk hgh

theorem SameAt.read {source : Source} (hs : SameAt g h source.origin.1) :
    h.read source = g.read source := by
  cases source with
  | output id index =>
    have hnode : h.node? id = g.node? id := hs
    rw [Graph.read, Graph.read, hnode]
  | transfer t =>
    have hcarried : h.carried[t]? = g.carried[t]? := hs
    simp only [Graph.read, List.getD_eq_getElem?_getD, hcarried]

/-- Graphs that differ at most in what a pass changes are equal where they hold the same. -/
theorem SamePass.eq (hs : SamePass g h) (hat : ∀ s, SameAt g h s) : h = g := by
  have hslots : h.slots = g.slots := by
    have hlength : h.slots.length = g.slots.length := by
      simpa using congrArg List.length hs.slots
    refine List.ext_getElem hlength fun i hi hi' => ?_
    have hnode : h.node? ⟨i⟩ = g.node? ⟨i⟩ := hat (.node ⟨i⟩)
    simpa [Graph.node?, List.getElem?_eq_getElem hi, List.getElem?_eq_getElem hi'] using hnode
  have hcarried : h.carried = g.carried := List.ext_getElem? fun t => hat (.transfer t)
  have hrest := hs.rest
  rw [← hslots, ← hcarried] at hrest
  exact hrest

theorem SamePass.symm (hs : SamePass g h) : SamePass h g := by
  refine ⟨?_, hs.slots.symm⟩
  exact congrArg (fun x : Graph β => { x with slots := h.slots, carried := h.carried }) hs.rest.symm

theorem SamePass.withLoops (hs : SamePass g h) (loops : LoopTable Float) :
    SamePass { g with loops } { h with loops } :=
  ⟨congrArg (fun x : Graph β => { x with loops }) hs.rest, hs.slots⟩

theorem SamePass.type? (hs : SamePass g h) (id : TypeId) : h.type? id = g.type? id := by
  rw [Graph.type?, Graph.type?, hs.types]

theorem SamePass.isCombinational (hs : SamePass g h) (id : NodeId) :
    h.isCombinational id = g.isCombinational id := by
  have hnode := congrArg (Option.map Node.type) (hs.node? id)
  rw [Option.map_map, Option.map_map] at hnode
  rw [Graph.isCombinational, Graph.isCombinational, typeOf?_congr hs.types hnode]

/-- A gate decides in either kind of pass. Without a gate a node runs when it is driven, and in the
main pass also when it has no loops to wait for. -/
theorem runs_eq (g : Graph β) (plan : Plan) (pass : Pass) (id : NodeId) :
    g.runs plan pass id = (g.isCombinational id ||
      match plan.gateSource? id with
      | some source => g.readGate source
      | none => (g.node? id).any fun n =>
        (decide (pass = .main) && n.subscriptions.isEmpty) || g.isDriven n) := by
  unfold runs gateUnder
  cases hsource : plan.gateSource? id <;> cases pass <;> simp [hsource]

theorem SamePass.runs (hs : SamePass g h) {plan : Plan} {id : NodeId}
    (hgate : ∀ source, plan.gateSource? id = some source → h.read source = g.read source)
    (pass : Pass) : h.runs plan pass id = g.runs plan pass id := by
  rw [runs_eq, runs_eq, hs.isCombinational id]
  cases hsource : plan.gateSource? id with
  | some source => simp only [readGate, hgate source hsource]
  | none =>
    have hany (k : Graph β) : ((k.node? id).any fun n =>
        (decide (pass = .main) && n.subscriptions.isEmpty) || k.isDriven n) =
        ((k.node? id).map Node.seated).any fun n =>
          (decide (pass = .main) && n.subscriptions.isEmpty) || k.isDriven n := by
      rw [Option.any_map]
      rfl
    dsimp only
    rw [hany, hany, hs.node?]
    simp only [isDriven, hs.loops]

end Graph

namespace Progress

open FrameGraph.Graph

variable {plan : Plan} {pass : Pass} {p q r : Progress β}

def copied (p : Progress β) (plan : Plan) (t : Nat) : Value :=
  match plan.transfers[t]? with
  | none => .empty
  | some transfer => p.graph.read (.output transfer.source transfer.output)

theorem copied_congr {t : Nat} (hreads : ∀ source, plan.Reads (.transfer t) source →
    SameAt p.graph q.graph source.origin.1) : q.copied plan t = p.copied plan t := by
  unfold copied
  split
  · rfl
  · next transfer htransfer => exact (hreads _ (.transfer htransfer)).read

theorem runs_congr (hs : SamePass p.graph q.graph) {id : NodeId}
    (hreads : ∀ source, plan.Reads (.node id) source →
      SameAt p.graph q.graph source.origin.1) (pass : Pass) :
    q.graph.runs plan pass id = p.graph.runs plan pass id :=
  hs.runs (fun source hsource => (hreads source (.gate hsource)).read) pass

theorem timing_congr (hs : SamePass p.graph q.graph) (hdelta : q.report.delta = p.report.delta)
    (pass : Pass) (n : Node β) : q.timing pass n = p.timing pass n := by
  simp only [timing, drivingLoop?, hs.loops, hs.frame, hdelta]

variable [Behavior β]

/-- What its turn makes of a node, on the values of the frame in progress, and the error if the node
fails. -/
def turned (p : Progress β) (plan : Plan) (pass : Pass) (id : NodeId) (n : Node β) :
    Node β × Option NodeError :=
  if p.graph.runs plan pass id then n.act (p.graph.type? n.type) (p.context plan pass id n)
  else (n, none)

/-! ### Single steps -/

/-- The step of a live node leaves in its slot what its turn makes of it and fails as the turn does.
-/
theorem step_node (plan : Plan) (pass : Pass) {id : NodeId} {n : Node β}
    (hlive : p.graph.node? id = some n) :
    (p.step plan pass (.node id)).1.graph.node? id = some (p.turned plan pass id n).1 ∧
      (p.step plan pass (.node id)).2 = (p.turned plan pass id n).2.map (Failure.mk id) := by
  unfold turned
  simp only [step]
  split
  · obtain ⟨_, _, hgraph, hfailure⟩ := invoke_recorded plan pass hlive
    rw [hlive, ← hfailure]
    dsimp only
    split
    · next next hdone =>
      rw [hdone] at hgraph ⊢
      exact ⟨hgraph, rfl⟩
    · next next error hfailed =>
      rw [hfailed] at hgraph ⊢
      exact ⟨hgraph, rfl⟩
  · rw [skip_graph]
    exact ⟨hlive, rfl⟩

theorem step_gone (plan : Plan) (pass : Pass) {id : NodeId} (hgone : p.graph.node? id = none) :
    (p.step plan pass (.node id)).1.graph = p.graph ∧
      (p.step plan pass (.node id)).2 = none := by
  simp only [step]
  split
  · rw [hgone]
    exact ⟨rfl, rfl⟩
  · exact ⟨skip_graph p pass id, rfl⟩

theorem invoke_others (p : Progress β) (plan : Plan) (pass : Pass) {id : NodeId} (n : Node β)
    {other : Step} (hother : other ≠ .node id) :
    SameAt p.graph (p.invoke plan pass id n).1.graph other := by
  unfold invoke
  dsimp only
  split
  · cases other with
    | transfer u => rfl
    | node id' =>
      have hne : id ≠ id' := fun heq => hother (congrArg Step.node heq.symm)
      exact (node?_modifyNode _ _ _ _).trans (if_neg hne)
  · exact .refl _ _

theorem Stepped.others {s other : Step} (h : Stepped plan pass p s q) (hother : other ≠ s) :
    SameAt p.graph q.graph other := by
  cases h with
  | transferred t =>
    cases other with
    | node id => rfl
    | transfer u =>
      have hne : t ≠ u := fun heq => hother (congrArg Step.transfer heq.symm)
      exact List.getElem?_set_ne hne
  | skipped id closed =>
    rw [skip_graph]
    exact .refl _ _
  | vacant id runs gone => exact .refl _ _
  | invoked id node next runs live done =>
    have hinvoke := p.invoke_others plan pass node hother
    rw [done] at hinvoke
    exact hinvoke

theorem Stepped.delta {s : Step} (h : Stepped plan pass p s q) :
    q.report.delta = p.report.delta := by
  cases h with
  | transferred t | vacant id runs gone => rfl
  | skipped id closed => cases pass <;> rfl
  | invoked id node next runs live done =>
    have hreport := p.invoke_report plan pass id node
    rw [done] at hreport
    change next.report.delta = _
    exact congrArg FrameReport.delta hreport

/-! ### What a turn depends on -/

theorem turned_congr (hs : SamePass p.graph q.graph) (hdelta : q.report.delta = p.report.delta)
    {id : NodeId} (hreads : ∀ source, plan.Reads (.node id) source →
      SameAt p.graph q.graph source.origin.1) (n : Node β) :
    q.turned plan pass id n = p.turned plan pass id n := by
  have hcontext : q.context plan pass id n = p.context plan pass id n := by
    have htiming := timing_congr hs hdelta pass n
    have hinputs (input : Nat) : (plan.inputSource? id input).map q.graph.read =
        (plan.inputSource? id input).map p.graph.read := by
      cases hsource : plan.inputSource? id input with
      | none => rfl
      | some source => simp [(hreads source (.input hsource)).read]
    simp only [context, htiming, hinputs, hs.loops, hs.frame, hs.type?]
  rw [turned, turned, hcontext, runs_congr hs hreads, hs.type?]

/-! ### The end of a walk -/

/-- What a state holds where a step writes is what the step makes of what was there, on the values
of the state itself. -/
def SettledAt (plan : Plan) (pass : Pass) (p q : Progress β) : Step → Prop
  | .node id => ∀ n, p.graph.node? id = some n → (q.turned plan pass id n).2 = none ∧
      q.graph.node? id = some (q.turned plan pass id n).1
  | .transfer t => q.graph.carried[t]? = p.graph.carried[t]?.map fun _ => q.copied plan t

/-- A state after some steps, described by the values in it. -/
structure Settles (plan : Plan) (pass : Pass) (steps : List Step) (p q : Progress β) : Prop where
  same : SamePass p.graph q.graph
  delta : q.report.delta = p.report.delta
  at_mem : ∀ s ∈ steps, SettledAt plan pass p q s
  others : ∀ s ∉ steps, SameAt p.graph q.graph s

theorem SettledAt.of_sameAt {s : Step} (hs : SameAt p.graph r.graph s)
    (h : SettledAt plan pass r q s) : SettledAt plan pass p q s := by
  cases s with
  | node id => exact fun n hn => h n (Eq.trans hs hn)
  | transfer t => exact Eq.trans h (congrArg (Option.map fun _ => q.copied plan t) hs)

/-- Where what it reads is as at the end, a step does not fail and leaves what is there at the end
exactly if the end is settled there. -/
theorem settledAt_iff {s : Step} (hs : SamePass p.graph q.graph)
    (hdelta : q.report.delta = p.report.delta)
    (hreads : ∀ source, plan.Reads s source → SameAt p.graph q.graph source.origin.1) :
    SettledAt plan pass p q s ↔
      ∃ next, p.step plan pass s = (next, none) ∧ SameAt next.graph q.graph s := by
  have hstep {failure : Option Failure} (h : (p.step plan pass s).2 = failure) :
      (∃ next, p.step plan pass s = (next, none) ∧ SameAt next.graph q.graph s) ↔
        failure = none ∧ SameAt (p.step plan pass s).1.graph q.graph s := by
    subst h
    constructor
    · rintro ⟨next, hnext, hat⟩
      rw [hnext]
      exact ⟨rfl, hat⟩
    · rintro ⟨hnone, hat⟩
      exact ⟨_, Prod.ext rfl hnone, hat⟩
  cases s with
  | transfer t =>
    have hcarried : (p.step plan pass (.transfer t)).1.graph.carried[t]? =
        p.graph.carried[t]?.map fun _ => q.copied plan t := by
      rw [copied_congr hreads]
      exact List.getElem?_set_self' ..
    rw [hstep rfl, SameAt, hcarried]
    exact ⟨fun h => ⟨rfl, h⟩, And.right⟩
  | node id =>
    cases hn : p.graph.node? id with
    | none =>
      obtain ⟨hgraph, hfailure⟩ := step_gone plan pass hn
      have hgone := hs.node? id
      rw [hn] at hgone
      rw [hstep hfailure, SameAt, hgraph, hn, Option.map_eq_none_iff.mp hgone]
      simp [SettledAt, hn]
    | some n =>
      obtain ⟨hnode, hfailure⟩ := step_node plan pass hn
      rw [hstep hfailure, SameAt, hnode, ← turned_congr hs hdelta hreads n]
      simp [SettledAt, hn]

theorem walk_cons_iff {s : Step} {rest : List Step} :
    p.walk plan pass (s :: rest) = (q, none) ↔
      ∃ next, p.step plan pass s = (next, none) ∧ next.walk plan pass rest = (q, none) := by
  constructor
  · intro h
    simp only [walk] at h
    split at h
    · next next hstep => exact ⟨next, hstep, h⟩
    · cases h
  · rintro ⟨next, hstep, hrest⟩
    simp only [walk, hstep, hrest]

/-- A walk without a failure ends in a state that settles. -/
theorem walk_settles {steps : List Step} (hsteps : plan.IsLinear steps)
    (h : p.walk plan pass steps = (q, none)) : Settles plan pass steps p q := by
  induction steps generalizing p with
  | nil =>
    obtain ⟨rfl, _⟩ := Prod.mk.inj h
    exact ⟨.refl _, rfl, fun _ hmem => (nomatch hmem), fun s _ => .refl _ s⟩
  | cons s rest ih =>
    obtain ⟨hfresh, hreads, hrest⟩ := hsteps.of_cons
    obtain ⟨next, hstep, hwalk⟩ := walk_cons_iff.mp h
    have hstepped := stepped_of_step hstep
    have hsettles := ih hrest hwalk
    have hsame := hstepped.samePass.trans hsettles.same
    have hdelta := hsettles.delta.trans hstepped.delta
    have hothers : ∀ other ∉ s :: rest, SameAt p.graph q.graph other := by
      intro other hother
      rw [List.mem_cons, not_or] at hother
      exact (hstepped.others hother.1).trans (hsettles.others other hother.2)
    refine ⟨hsame, hdelta, fun other hmem => ?_, hothers⟩
    rcases List.mem_cons.mp hmem with rfl | hlater
    · exact (settledAt_iff hsame hdelta fun source hsource => hothers _ (hreads source hsource)).mpr
        ⟨next, hstep, hsettles.others _ hfresh⟩
    · exact (hsettles.at_mem other hlater).of_sameAt
        (hstepped.others fun heq => hfresh (heq ▸ hlater))

/-- The order of the steps does not matter. -/
theorem Settles.of_mem_iff {steps order : List Step} (h : Settles plan pass steps p q)
    (hmem : ∀ s, s ∈ order ↔ s ∈ steps) : Settles plan pass order p q :=
  ⟨h.same, h.delta, fun s hs => h.at_mem s ((hmem s).mp hs),
    fun s hs => h.others s fun hmem' => hs ((hmem s).mpr hmem')⟩

/-- A state that settles is the one to which the walk leads, and the walk does not fail. -/
theorem Settles.walk {steps : List Step} (hsteps : plan.IsLinear steps)
    (h : Settles plan pass steps p q) :
    ∃ r, p.walk plan pass steps = (r, none) ∧ r.graph = q.graph := by
  induction steps generalizing p with
  | nil => exact ⟨p, rfl, (h.same.eq fun s => h.others s List.not_mem_nil).symm⟩
  | cons s rest ih =>
    obtain ⟨hfresh, hreads, hrest⟩ := hsteps.of_cons
    obtain ⟨next, hstep, hat⟩ := (settledAt_iff h.same h.delta fun source hsource =>
      h.others _ (hreads source hsource)).mp (h.at_mem s List.mem_cons_self)
    have hstepped := stepped_of_step hstep
    have hnext : Settles plan pass rest next q := by
      refine ⟨hstepped.samePass.symm.trans h.same, h.delta.trans hstepped.delta.symm,
        fun other hlater => ?_, fun other hother => ?_⟩
      · exact (h.at_mem other (List.mem_cons_of_mem s hlater)).of_sameAt
          (hstepped.others fun heq => hfresh (heq ▸ hlater)).symm
      · by_cases hs : other = s
        · exact hs ▸ hat
        · have hnew : other ∉ s :: rest := fun hmem => (List.mem_cons.mp hmem).elim hs hother
          exact (hstepped.others hs).symm.trans (h.others other hnew)
    obtain ⟨r, hwalk, hgraph⟩ := ih hrest hnext
    exact ⟨r, walk_cons_iff.mpr ⟨next, hstep, hwalk⟩, hgraph⟩

end Progress

end FrameGraph
