import FrameGraph.Proofs.Frame.Agreement
import FrameGraph.Proofs.Frame.Sequence
import FrameGraph.Proofs.Graph.Purity
import FrameGraph.Proofs.Loop.Extension

/-! A pass with a further loop beside the same pass without. The loop shows in the table of loops
and drives no node. Combinational nodes come out the same whatever their outputs were before, so
that on a set of nodes that holds with each node its producers the two passes end with the same, if
the other nodes of the set began with the same. -/

namespace FrameGraph

variable {β : Type}

/-! ### Behaviors -/

/-- What a behavior does depends on one further loop in its notes at most. -/
def LoopBlind (l : LoopId) (β : Type) [Behavior β] : Prop := BlindTo (fun t u => t.Extends l u) β

/-- Behaviors look neither at the further loop nor at what is not seen of the others. -/
def Overlooks (timed : Bool) (l : LoopId) (β : Type) [Behavior β] : Prop :=
  BlindTo (fun t u => (t.seen timed).Extends l (u.seen timed)) β

theorem LoopBlind.overlooks [Behavior β] {l : LoopId} {timed : Bool} (h : LoopBlind l β)
    (htimes : timed = false → TimeBlind β) : Overlooks timed l β := by
  cases timed with
  | true => exact h
  | false =>
    -- first the further loop comes in beside the times as they are, then these change
    intro behavior c t u hc hext
    obtain ⟨v, hadded, hsame, _⟩ := LoopTable.Extends.exists_timed hext
    exact (h behavior c t v hc hadded).trans
      (htimes rfl behavior { c with loops := some v } v u rfl hsame.symm)

theorem Context.flagsAlike {l : LoopId} {c d : Context} {t u : LoopTable Float}
    (hinputs : d.inputs = c.inputs) (hparams : d.params = c.params) (hc : c.loops = some t)
    (hd : d.loops = some u) (hflags : ∀ other ≠ l, u.isTriggered other = t.isTriggered other) :
    c.FlagsAlike l d := by
  refine ⟨hinputs, hparams, by rw [hc, hd]; rfl, fun other hother => ?_⟩
  rw [Context.flag, Context.flag, hc, hd]
  exact hflags other hother

/-- In contexts alike nodes with the same pure work leave the same, whatever they held before. -/
theorem Node.act_pure [Behavior β] {l : LoopId} {type : NodeType β} {work : Work β} {c d : Context}
    {m n : Node β} (hm : m.work = some work) (hn : n.work = some work)
    (hpure : work.IsPure l type.outputs c.params) (hd : c.FlagsAlike l d)
    (hfilled : m.outputs.length = type.outputs.length)
    (hfilled' : n.outputs.length = type.outputs.length) (hok : (m.act (some type) c).2 = none) :
    (n.act (some type) d).1.held = (m.act (some type) c).1.held := by
  simp only [Node.act, hm, hn] at hok ⊢
  obtain ⟨_, houtputs⟩ := hpure.result c d m.outputs n.outputs rfl hd hfilled hfilled'
  have hnext := hpure.next c m.outputs rfl hfilled
  have hnext' := hpure.next d n.outputs hd.params hfilled'
  simp only [Node.held, houtputs hok, hnext, hnext']

/-! ### Graphs with and without the loop -/

namespace Graph

/-- No node is subscribed to the loop. -/
def Spares (g : Graph β) (l : LoopId) : Prop := ∀ id n, g.node? id = some n → l ∉ n.subscriptions

variable {g h : Graph β} {l : LoopId} {U : NodeId → Prop}

theorem Spares.of_slots (hg : g.Spares l)
    (hslots : h.slots.map (Option.map Node.subscriptions) =
      g.slots.map (Option.map Node.subscriptions)) : h.Spares l := by
  intro id n hn
  obtain ⟨m, hm, hsubscriptions⟩ := node?_of_view hslots hn
  exact hsubscriptions ▸ hg id m hm

theorem Spares.of_samePass (hg : g.Spares l) (hs : SamePass g h) : h.Spares l :=
  hg.of_slots (slots_comp hs.slots Node.subscriptions)

theorem Spares.of_peers (hg : g.Spares l) (hp : Peers g h) : h.Spares l :=
  hg.of_slots (slots_comp hp.slots Node.subscriptions)

theorem Unnamed.opening (hg : g.Unnamed l) (override : Option Float) :
    (g.opening override).graph.Spares l := by
  intro id n hn
  rw [node?, opening_slots] at hn
  exact hg.propagate hn

def SameWork (g h : Graph β) (id : NodeId) : Prop :=
  ∃ work, (g.node? id).bind Node.work = some work ∧ (h.node? id).bind Node.work = some work

variable [Behavior β]

/-- The second graph has a further loop, and on a set of nodes that holds with each node its
producers the two hold the same, outputs of combinational work apart. -/
structure Accompanied (l : LoopId) (U : NodeId → Prop) (g h : Graph β) : Prop where
  peers : Peers g h
  closed : ∀ c ∈ g.dependencies, U c.sink → U c.source
  filled : g.Filled
  filled' : h.Filled
  unnamed : g.Unnamed l
  pure : g.Pure l
  nodes : ∀ id, U id → HoldsAlike g h id ∨ g.isCombinational id = true ∧ SameWork g h id

end Graph

namespace Graph.Accompanied

open FrameGraph.Graph

variable [Behavior β] {g h g' h' : Graph β} {l : LoopId} {U : NodeId → Prop}

theorem withLoops (hacc : Accompanied l U g h) (t u : LoopTable Float) :
    Accompanied l U { g with loops := t } { h with loops := u } :=
  ⟨⟨hacc.peers.types, hacc.peers.connections, hacc.peers.timer, hacc.peers.frame, hacc.peers.slots⟩,
    hacc.closed, hacc.filled, hacc.filled', hacc.unnamed, hacc.pure, hacc.nodes⟩

/-- What running does to the two graphs matters only for what they hold. -/
theorem of_effects (hacc : Accompanied l U g h) (hg : Effects g g') (hh : Effects h h')
    (hpeers : Peers g' h')
    (hnodes : ∀ id, U id → HoldsAlike g' h' id ∨ g.isCombinational id = true ∧ SameWork g' h' id) :
    Accompanied l U g' h' := by
  refine ⟨hpeers, ?_, hacc.filled.effects hg, hacc.filled'.effects hh, hacc.unnamed.effects hg,
    hacc.pure.effects hacc.filled hg, fun id hU => ?_⟩
  · rw [dependencies, hg.sameShape.connections]
    exact hacc.closed
  · rw [hg.sameShape.isCombinational]
    exact hnodes id hU

theorem work (hacc : Accompanied l U g h) {id : NodeId} {m n : Node β} (hU : U id)
    (hm : g.node? id = some m) (hn : h.node? id = some n) : n.work = m.work := by
  rcases hacc.nodes id hU with hheld | ⟨_, work, hwork, hwork'⟩
  · rw [HoldsAlike, hm, hn] at hheld
    exact congrArg Prod.fst (Option.some.inj hheld)
  · rw [hm, Option.bind_some] at hwork
    rw [hn, Option.bind_some] at hwork'
    rw [hwork, hwork']

theorem combinational (hacc : Accompanied l U g h) {id : NodeId} {m n : Node β} {work : Work β}
    (hcombinational : g.isCombinational id = true) (hm : g.node? id = some m)
    (hn : h.node? id = some n) (hwork : m.work = some work) :
    ∃ type, g.type? m.type = some type ∧ n.type = m.type ∧ n.params = m.params ∧
      work.IsPure l type.outputs m.params ∧ m.outputs.length = type.outputs.length ∧
      n.outputs.length = type.outputs.length := by
  obtain ⟨type, htype, hflag⟩ := (Option.any_eq_true _ _).mp hcombinational
  rw [typeOf?, hm, Option.bind_some] at htype
  have hstation := hacc.peers.node? id
  rw [hm, hn] at hstation
  have hsame := Option.some.inj hstation
  have htype' : n.type = m.type := (congrArg Node.type hsame :)
  have hparams : n.params = m.params := (congrArg Node.params hsame :)
  exact ⟨type, htype, htype', hparams,
    hacc.pure m (mem_nodes_of_node? hm) type work htype hflag hwork, hacc.filled.outputs hm htype,
    hacc.filled'.outputs hn (by rw [htype', hacc.peers.type?, htype])⟩

theorem wait (hacc : Accompanied l U g h) (seconds : Float) :
    Accompanied l U (g.wait seconds) (h.wait seconds) := by
  have hwait (k : Graph β) : Effects k (k.wait seconds) := by
    rw [wait_eq]
    exact .time k _ k.frame rfl
  refine hacc.of_effects (hwait g) (hwait h) (hacc.peers.wait seconds) fun id hU => ?_
  rw [wait_eq, wait_eq]
  exact hacc.nodes id hU

theorem opening (hacc : Accompanied l U g h) (override : Option Float) :
    Accompanied l U (g.opening override).graph (h.opening override).graph := by
  refine hacc.of_effects (g.advance_effects override) (h.advance_effects override)
    (hacc.peers.opening override).1 fun id hU => ?_
  have hwork (k : Graph β) : (k.node? id).bind Node.work =
      ((k.node? id).map Node.held).bind Prod.fst := by
    rw [Option.bind_map]
    rfl
  simp only [HoldsAlike, SameWork, hwork, opening_held]
  simpa only [HoldsAlike, SameWork, hwork] using hacc.nodes id hU

end Graph.Accompanied

/-! ### Turns -/

namespace Progress

open FrameGraph.Graph

variable [Behavior β] {plan : Plan} {pass : Pass} {p q p' q' : Progress β} {id : NodeId}
  {m n : Node β} {l : LoopId} {U : NodeId → Prop} {timed : Bool}

theorem turned_skipped (h : p.graph.runs plan pass id = false) :
    p.turned plan pass id n = (n, none) := by
  rw [turned, h]
  rfl

/-- At its turn a node leaves the same with the further loop as without. -/
theorem Level.accompanied_held (h : Level p' q' plan plan pass id m n)
    (hacc : Accompanied l U p.graph q.graph) (hp : SamePass p.graph p'.graph)
    (hext : (p'.graph.loops.seen timed).Extends l (q'.graph.loops.seen timed))
    (hspared : l ∉ m.subscriptions) (hblind : Overlooks timed l β) (hU : U id)
    (hm : p.graph.node? id = some m) (hn : q.graph.node? id = some n)
    (hok : (p'.turned plan pass id m).2 = none) :
    (q'.turned plan pass id n).1.held = (p'.turned plan pass id m).1.held := by
  have hget := hext.untimed.get?_of_not_mem hspared
  have hruns := h.runs hget
  -- by the same plan the device is the same, and the further loop shows in the table of loops only
  have hcontext : q'.context plan pass id n = p'.context plan pass id m ∨
      (p'.context plan pass id m).loops = some p'.graph.loops ∧
      q'.context plan pass id n =
        { p'.context plan pass id m with loops := some q'.graph.loops } := h.context hget
  rcases hacc.nodes id hU with hheld | ⟨hcombinational, work, hwork, hwork'⟩
  · rw [HoldsAlike, hm, hn] at hheld
    refine (h.turned_held (Option.some.inj hheld) hget fun work hwork => ?_).1
    rcases hcontext with heq | ⟨hloops, heq⟩
    · rw [heq]
      exact .refl _
    · rw [heq]
      refine hblind.work hloops hext fun hbridge named hnamed => hext.isTriggered_seen ?_
      rintro rfl
      exact hacc.unnamed m (mem_nodes_of_node? hm) (.inr (hwork.trans (congrArg some hbridge)))
        hnamed
  · rw [hm, Option.bind_some] at hwork
    rw [hn, Option.bind_some] at hwork'
    obtain ⟨type, hknown, _, _, hpure, hfilled, hfilled'⟩ :=
      hacc.combinational hcombinational hm hn hwork
    have htype : p'.graph.type? m.type = some type := by rw [hp.type?, hknown]
    have htype' : q'.graph.type? n.type = some type := by rw [h.type?, htype]
    have hruns' : p'.graph.runs plan pass id = true := by
      rw [runs_eq, hp.isCombinational, hcombinational, Bool.true_or]
    have halike : (p'.context plan pass id m).FlagsAlike l (q'.context plan pass id n) := by
      rcases hcontext with heq | ⟨hloops, heq⟩
      · rw [heq]
        exact .refl _
      · rw [heq]
        exact Context.flagsAlike rfl rfl hloops rfl fun _ hother => hext.isTriggered_seen hother
    rw [turned, hruns', if_pos rfl, htype] at hok
    rw [turned, turned, hruns, hruns', if_pos rfl, if_pos rfl, htype, htype']
    exact Node.act_pure hwork hwork' hpure halike hfilled hfilled' hok

/-! ### Passes -/

theorem walk_accompanied_held (hacc : Accompanied l U p.graph q.graph) (hspares : p.graph.Spares l)
    (hext : (p.graph.loops.seen timed).Extends l (q.graph.loops.seen timed))
    (hdelta : q.report.delta = p.report.delta) (hP : p.graph.RunBy plan) (hQ : q.graph.RunBy plan)
    (hblind : Overlooks timed l β) (hp : p.walk plan pass plan.order = (p', none))
    (hq : q.walk plan pass plan.order = (q', none)) (hU : U id) :
    HoldsAlike p'.graph q'.graph id := by
  have hsettles := walk_settles hP.isLinear hp
  have hsettles' := walk_settles hQ.isLinear hq
  have hext' : (p'.graph.loops.seen timed).Extends l (q'.graph.loops.seen timed) := by
    rwa [hsettles.same.loops, hsettles'.same.loops]
  by_cases hid : .node id ∈ plan.order
  · refine hsettles.agree hP hsettles' hQ (List.append_nil _).symm hacc.peers hdelta hacc.closed
      (fun id m n hU hm hn hlevel => ?_) hU hid
    exact hlevel.accompanied_held hacc hsettles.same hext' (hspares id m hm) hblind hU hm hn
      (hsettles.at_mem _ (hP.node_mem.mpr (by rw [hm]; rfl)) m hm).1
  · refine (hacc.peers.samePass hsettles.same hsettles'.same).holdsAlike_of_gone fun hlive => ?_
    rw [hsettles.same.node?_isSome] at hlive
    exact hid (hP.node_mem.mpr hlive)

/-- Over a pass with the further loop beside one without the two graphs hold the same on the whole
set, and each node of it runs in both or in neither, on the same timing. -/
theorem walk_accompanied (hacc : Accompanied l U p.graph q.graph) (hspares : p.graph.Spares l)
    (hext : (p.graph.loops.seen timed).Extends l (q.graph.loops.seen timed))
    (hdelta : q.report.delta = p.report.delta) (hP : p.graph.RunBy plan) (hQ : q.graph.RunBy plan)
    (hblind : Overlooks timed l β) (hp : p.walk plan pass plan.order = (p', none))
    (hq : q.walk plan pass plan.order = (q', none)) :
    Accompanied l U p'.graph q'.graph ∧ ∀ id, U id → .node id ∈ plan.order →
      ∃ m n, p.graph.node? id = some m ∧ q.graph.node? id = some n ∧
        q'.graph.runs plan pass id = p'.graph.runs plan pass id ∧
        q.timing pass n = p.timing pass m := by
  have hheld {id : NodeId} (hU : U id) : HoldsAlike p'.graph q'.graph id :=
    walk_accompanied_held hacc hspares hext hdelta hP hQ hblind hp hq hU
  have hsettles := walk_settles hP.isLinear hp
  have hsettles' := walk_settles hQ.isLinear hq
  refine ⟨hacc.of_effects (effects_of_walk hp) (effects_of_walk hq)
    (hacc.peers.samePass hsettles.same hsettles'.same) fun id hU => .inl (hheld hU),
    fun id hU hid => ?_⟩
  obtain ⟨before, after, horder⟩ := List.append_of_mem hid
  obtain ⟨m, n, hm, hn, hlevel⟩ := hsettles.level hP hsettles' hQ hacc.peers hdelta hid
    (fun a ha => horder ▸ List.mem_append_left _ (hQ.mem_before _ _ _ horder a ha))
    fun c hc hsink => hheld (hacc.closed c hc (hsink ▸ hU))
  have hext' : (p'.graph.loops.seen timed).Extends l (q'.graph.loops.seen timed) := by
    rwa [hsettles.same.loops, hsettles'.same.loops]
  have hget := hext'.untimed.get?_of_not_mem (hspares id m hm)
  have htiming := hlevel.timing hget
  rw [timing_congr hsettles.same hsettles.delta, timing_congr hsettles'.same hsettles'.delta]
    at htiming
  exact ⟨m, n, hm, hn, hlevel.runs hget, htiming⟩

end Progress

end FrameGraph
