import FrameGraph.Proofs.Graph.Acceptance

/-! Reachable graphs are well formed, and a number stays with its node. Numbers are given by
counting the slots, which never become fewer, and a node is never put into a slot that was
given before. So whatever commands follow, a live node is still there under its number or is
gone for ever, and a new node has a number that no node had. -/

namespace FrameGraph

/-- The error says that the graph itself is broken, and not that it is incomplete or cannot be
scheduled. -/
def CompileError.isInternal : CompileError → Bool
  | unresolved .. | unknownType _ | typeMismatch .. => true
  | cycle _ | missingInput .. | deviceConflict .. => false

def Command.created? {β α : Type} : Command β α → α → Option NodeId
  | create .., id => some id
  | addBridge .., id => some id
  | addBoolOp .., id => some id
  | addConstant .., id => some id
  | _, _ => none

namespace Graph

variable {β : Type} {g h k : Graph β}

/-- What the connections, the slots, the index of names and the instance limits of a graph owe to
each other. -/
structure WellFormed (g : Graph β) : Prop where
  /-- Both ends are live and have ports that may be connected, of one type, boolean for a gate. -/
  connected : ∀ c ∈ g.connections, g.Fits c
  /-- Of all ports only loop inputs have more than one producer. -/
  single : ∀ id port, port ≠ .loopIn →
    (g.connections.filter fun c => c.sink == id && c.sinkPort == port).length ≤ 1
  nodup : g.connections.Nodup
  numbered : ∀ (i : Nat) (n : Node β), g.slots[i]? = some (some n) → n.id = ⟨i⟩
  /-- The index of names lists every live node under its name, and nothing else. -/
  named : ∀ name id, g.nodeNamed? name = some id ↔ ∃ n, g.node? id = some n ∧ n.name = name
  limited : ∀ id type max, g.type? id = some type → type.maxInstances = some max →
    (g.instances id).length ≤ max

/-- A connection into anything but a loop input orders its ends. -/
theorem Fits.isDependency {c : Connection} (hc : g.Fits c) (hport : c.sinkPort ≠ .loopIn) :
    c.isDependency = true := by
  obtain ⟨_, _, carried, _, _, hcarries, _⟩ := hc
  cases carried with
  | data output input => exact Connection.isDependency_iff.mpr (.inl ⟨output, input, hcarries⟩)
  | gate output => exact Connection.isDependency_iff.mpr (.inr ⟨output, hcarries⟩)
  | loops => exact absurd (Connection.ports_of_loops hcarries).2 hport

theorem Integral.single_sink (hg : g.Integral) (id : NodeId) {port : Port}
    (hport : port ≠ .loopIn) :
    (g.connections.filter fun c => c.sink == id && c.sinkPort == port).length ≤ 1 := by
  have hdependencies : (g.connections.filter fun c => c.sink == id && c.sinkPort == port) =
      g.dependencies.filter fun c => c.sink == id && c.sinkPort == port := by
    rw [dependencies, List.filter_filter]
    refine List.filter_congr fun c hc => ?_
    cases hmatch : c.sink == id && c.sinkPort == port with
    | false => rfl
    | true =>
      obtain ⟨_, hsink⟩ := Bool.and_eq_true_iff.mp hmatch
      have hne : c.sinkPort ≠ .loopIn := beq_iff_eq.mp hsink ▸ hport
      rw [(hg.fits c hc).isDependency hne, Bool.and_true]
  rw [hdependencies]
  have hinto : ∀ c ∈ g.dependencies.filter fun c => c.sink == id && c.sinkPort == port,
      c.sink = id ∧ c.sinkPort = port := by
    intro c hc
    have hmatch := (List.mem_filter.mp hc).2
    rwa [Bool.and_eq_true, beq_iff_eq, beq_iff_eq] at hmatch
  have hpairwise := hg.single_producer.filter fun c => c.sink == id && c.sinkPort == port
  generalize g.dependencies.filter (fun c => c.sink == id && c.sinkPort == port) = into
    at hinto hpairwise ⊢
  rcases into with _ | ⟨c, _ | ⟨d, rest⟩⟩
  · exact Nat.zero_le 1
  · exact Nat.le_refl 1
  · obtain ⟨hsink, hsinkPort⟩ := hinto c List.mem_cons_self
    obtain ⟨hsink', hsinkPort'⟩ := hinto d (List.mem_cons_of_mem c List.mem_cons_self)
    exact absurd ⟨hsink.trans hsink'.symm, hsinkPort.trans hsinkPort'.symm⟩
      ((List.pairwise_cons.mp hpairwise).1 d List.mem_cons_self)

theorem Integral.wellFormed (hg : g.Integral) : g.WellFormed where
  connected := hg.fits
  single id _ hport := hg.single_sink id hport
  nodup := hg.connections_nodup
  numbered i n hn := hg.id_eq ⟨i⟩ n (by rw [node?, hn, Option.join_some])
  named := hg.named
  limited := hg.limits

/-- A graph in order is never found broken by its compilation. -/
theorem Integral.isInternal_eq_false (hg : g.Integral) {config : CompileConfig} {e : CompileError}
    (he : g.planFor config = .error e) : e.isInternal = false := by
  rcases hg.planFor_cases config with ⟨_, _, _, _, h⟩ | ⟨_, _, _, h⟩ | ⟨_, _, _, _, _, h⟩ |
    ⟨_, _, _, _, h⟩
  · obtain rfl := Except.error.inj (he.symm.trans h)
    rfl
  · obtain rfl := Except.error.inj (he.symm.trans h)
    rfl
  · obtain rfl := Except.error.inj (he.symm.trans h)
    rfl
  · exact nomatch he.symm.trans h

/-! ### New nodes -/

theorem create_ok {typeId : TypeId} {name : String} {id : NodeId}
    (hc : g.create typeId name = (h, .ok id)) :
    id.index = g.slots.length ∧ (h.node? id).isSome := by
  obtain ⟨e, hcreate⟩ | ⟨type, _, _, _, hcreate⟩ := g.create_cases typeId name
  · cases hcreate.symm.trans hc
  · obtain ⟨rfl, hid⟩ := Prod.mk.inj (hcreate.symm.trans hc)
    obtain rfl := Except.ok.inj hid
    rw [node?_place, if_pos rfl]
    exact ⟨rfl, rfl⟩

theorem setParam_isSome (g : Graph β) (id : NodeId) (name : String) (value : Value)
    (other : NodeId) : ((g.setParam id name value).1.node? other).isSome =
      (g.node? other).isSome := by
  obtain ⟨e, hc⟩ | ⟨node, type, _, _, _, _, hc⟩ := g.setParam_cases id name value
  · rw [hc]
  · rw [hc]
    change ((g.modifyNode id _).node? other).isSome = _
    rw [node?_modifyNode]
    split
    · next heq => rw [Option.isSome_map, heq]
    · rfl

theorem createWith_ok {type : TypeId} {name param : String} {value : Value} {id : NodeId}
    (hc : g.createWith type name param value = (h, .ok id)) :
    id.index = g.slots.length ∧ (h.node? id).isSome := by
  unfold createWith at hc
  split at hc
  · cases hc
  · next created own hcreate =>
    have hkept := created.setParam_isSome own param value own
    split at hc
    · cases hc
    · next next hparam =>
      obtain ⟨rfl, hid⟩ := Prod.mk.inj hc
      obtain rfl := Except.ok.inj hid
      obtain ⟨hindex, hlive⟩ := create_ok hcreate
      rw [hparam] at hkept
      exact ⟨hindex, hkept.trans hlive⟩

theorem ofCall_ok {ε α : Type} {fault : ε → Fault} {call : Graph β × Except ε α} {a : α}
    (hc : (Outcome.ofCall fault call).answer = .ok a) :
    call = ((Outcome.ofCall fault call).graph, .ok a) := by
  obtain ⟨next, answer⟩ := call
  cases answer with
  | ok own => exact congrArg (fun own => (next, Except.ok own)) (Except.ok.inj hc)
  | error e => cases hc

/-! ### Numbers over time -/

/-- Numbers that `g` has given belong in `h` to the nodes to which they belonged, or to none. -/
structure Continues (g h : Graph β) : Prop where
  given : g.slots.length ≤ h.slots.length
  kept : ∀ id n, h.node? id = some n → id.index < g.slots.length →
    ∃ m, g.node? id = some m ∧ n.label = m.label

theorem Continues.refl (g : Graph β) : Continues g g :=
  ⟨Nat.le_refl _, fun _ n hn _ => ⟨n, hn, rfl⟩⟩

theorem Continues.trans (hgh : Continues g h) (hhk : Continues h k) : Continues g k := by
  refine ⟨hgh.given.trans hhk.given, fun id n hn hid => ?_⟩
  obtain ⟨m, hm, hlabel⟩ := hhk.kept id n hn (hid.trans_le hgh.given)
  obtain ⟨first, hfirst, hbefore⟩ := hgh.kept id m hm hid
  exact ⟨first, hfirst, hlabel.trans hbefore⟩

/-- Numbers, names and types of nodes are as before. -/
theorem Continues.of_label
    (hslots : h.slots.map (Option.map Node.label) = g.slots.map (Option.map Node.label)) :
    Continues g h := by
  refine ⟨Nat.le_of_eq (by simpa using congrArg List.length hslots.symm), fun id n hn _ => ?_⟩
  obtain ⟨m, hm, hlabel⟩ := node?_of_view hslots hn
  exact ⟨m, hm, hlabel.symm⟩

theorem SameShape.continues (hs : SameShape g h) : Continues g h :=
  .of_label (slots_comp hs.slots Node.label)

theorem Edit.continues (e : Edit g h) : Continues g h := by
  cases e with
  | registerLoop | registerType | setConfig | connect | connectLoops | disconnect | compile
  | advanceClock => exact .of_label rfl
  | create typeId type name known fresh room =>
    refine ⟨by simp [place], fun id n hn hid => ⟨n, ?_, rfl⟩⟩
    rwa [node?_place, if_neg (Nat.ne_of_lt hid)] at hn
  | remove id node live =>
    refine ⟨by simp, fun other n hn _ => ⟨n, ?_, rfl⟩⟩
    rw [node?_set_none] at hn
    split at hn
    · cases hn
    · exact hn
  | setParam id | setDevice id | setBehavior id =>
    exact .of_label (modifyNode_map g id _ _ fun _ _ => rfl)
  | propagate => exact (propagate_sameShape g).continues

variable [Behavior β]

theorem Change.continues (hc : Change g h) : Continues g h := by
  cases hc with
  | edit e => exact e.continues
  | runFrame limit plan override watch =>
    exact (g.runFrame_sameShape limit plan override watch).continues

theorem continues_of_changes (hc : Relation.ReflTransGen Change g h) : Continues g h := by
  induction hc with
  | refl => exact .refl g
  | tail _ hc ih => exact ih.trans hc.continues

inductive LeadsTo (g : Graph β) : Graph β → Prop
  | refl : LeadsTo g g
  | run {h : Graph β} {α : Type} (before : LeadsTo g h) (c : Command β α) :
    LeadsTo g (c.run h).graph

theorem LeadsTo.continues (hgh : LeadsTo g h) : Continues g h := by
  induction hgh with
  | refl => exact .refl g
  | run _ c ih => exact ih.trans (continues_of_changes (run_changes c))

/-- A node keeps its number, name and type for as long as it lives; its number is never used again.
-/
theorem LeadsTo.keeps (hgh : LeadsTo g h) {id : NodeId} {n : Node β} (hn : g.node? id = some n) :
    (∃ m, h.node? id = some m ∧ m.label = n.label) ∨ ∀ k, LeadsTo h k → k.node? id = none := by
  have hid := index_lt_of_node? hn
  cases hm : h.node? id with
  | some m =>
    obtain ⟨own, hown, hlabel⟩ := hgh.continues.kept id m hm hid
    obtain rfl := Option.some.inj (hn.symm.trans hown)
    exact .inl ⟨m, rfl, hlabel⟩
  | none =>
    refine .inr fun k hhk => Option.eq_none_iff_forall_not_mem.mpr fun m hlive => ?_
    obtain ⟨_, hagain, _⟩ := hhk.continues.kept id m hlive (hid.trans_le hgh.continues.given)
    exact nomatch hm.symm.trans hagain

/-- A command that creates a node gives it the next number, and the node is live. -/
theorem run_created {α : Type} {c : Command β α} {a : α} {id : NodeId}
    (hc : (c.run g).answer = .ok a) (hid : c.created? a = some id) :
    id.index = g.slots.length ∧ ((c.run g).graph.node? id).isSome := by
  cases c with
  | create type name =>
    obtain rfl := Option.some.inj hid
    exact create_ok (ofCall_ok hc)
  | addBridge name loop =>
    obtain rfl := Option.some.inj hid
    have hbridge : g.addBridge name loop =
        ((Command.run g (.addBridge name loop)).graph, .ok a) := ofCall_ok hc
    generalize (Command.run g (.addBridge name loop)).graph = next at hbridge ⊢
    unfold addBridge at hbridge
    split at hbridge
    · exact createWith_ok hbridge
    · cases hbridge
  | addBoolOp name op =>
    obtain rfl := Option.some.inj hid
    exact createWith_ok (ofCall_ok hc)
  | addConstant name value =>
    obtain rfl := Option.some.inj hid
    exact createWith_ok (ofCall_ok hc)
  | _ => cases hid

/-- Every reachable graph is well formed, so that its compilation never finds it broken. Whatever
commands follow, its nodes keep their numbers, names and types until they are gone for ever, and
a node that is created has a number that was not in use before. -/
theorem Reachable.integrity (hg : Reachable g) : g.WellFormed ∧
    (∀ config e, g.planFor config = .error e → e.isInternal = false) ∧
    ∀ h, LeadsTo g h →
      (∀ id n, g.node? id = some n →
        (∃ m, h.node? id = some m ∧ m.label = n.label) ∨ ∀ k, LeadsTo h k → k.node? id = none) ∧
      ∀ {α : Type} (c : Command β α) (a : α) (id : NodeId), (c.run h).answer = .ok a →
        c.created? a = some id → g.node? id = none ∧ ((c.run h).graph.node? id).isSome := by
  refine ⟨hg.integral.wellFormed, fun _ _ he => hg.integral.isInternal_eq_false he,
    fun h hgh => ⟨fun _ _ hn => hgh.keeps hn, fun c a id hc hid => ?_⟩⟩
  obtain ⟨hindex, hlive⟩ := run_created hc hid
  refine ⟨?_, hlive⟩
  rw [node?, List.getElem?_eq_none (hindex ▸ hgh.continues.given), Option.join_none]

def chainCut : Graph Script := (Command.run chain (.remove ⟨1⟩)).graph

/-- A pass that takes the name of one that is gone does not take its number. -/
theorem chainCut_renamed : chain.WellFormed ∧ LeadsTo chain chainCut ∧
    (∀ k, LeadsTo chainCut k → k.node? ⟨1⟩ = none) ∧
    ((Command.create ⟨3⟩ "second").run chainCut).answer = .ok ⟨4⟩ ∧
    ((Command.create ⟨3⟩ "second").run chainCut).graph.nodeNamed? "second" = some ⟨4⟩ ∧
    chain.nodeNamed? "second" = some ⟨1⟩ ∧ chain.node? ⟨4⟩ = none := by
  have hleads : LeadsTo chain chainCut := LeadsTo.refl.run _
  obtain ⟨hchain, _, hnumbers⟩ := chain_reachable.integrity
  obtain ⟨hkeeps, hcreates⟩ := hnumbers chainCut hleads
  have hanswer : ((Command.create ⟨3⟩ "second").run chainCut).answer = .ok ⟨4⟩ := rfl
  refine ⟨hchain, hleads, ?_, hanswer, by decide +kernel, by decide +kernel,
    (hcreates _ _ _ hanswer rfl).1⟩
  have hlive : (chain.node? ⟨1⟩).isSome := by decide +kernel
  have hgone : chainCut.node? ⟨1⟩ = none := rfl
  obtain ⟨n, hn⟩ := Option.isSome_iff_exists.mp hlive
  exact (hkeeps _ n hn).resolve_left fun ⟨m, hm, _⟩ => nomatch hgone.symm.trans hm

end Graph

end FrameGraph
