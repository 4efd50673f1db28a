import FrameGraph.Proofs.Graph.Parameters
import FrameGraph.Proofs.Graph.Typing

/-! The signals of built-in nodes. What a bridge, a constant or a composition has at its output is
defined here by recursion over the data connections alone, whatever the order of execution: a
bridge shows the flag of its loop, a constant its value, a composition its operator applied to
what its inputs are connected to. A node that does other work enters with its present output. -/

namespace FrameGraph

variable {β : Type}

/-- A node of a built-in type that does the work of its type. -/
def Node.IsBuiltIn (n : Node β) : Prop :=
  (n.type = .bridge ∧ n.work = some .bridge) ∨ (n.type = .boolOp ∧ n.work = some .boolOp) ∨
    (n.type = .constant ∧ n.work = some .constant)

theorem Work.next_cases [Behavior β] (work : Work β) (c : Context) (ports : List OutputPort)
    (outputs : List Value) : ((Behavior.act work c).run ports outputs).next = work ∨
      (∃ behavior, work = .custom behavior) ∧
        ∃ next, ((Behavior.act work c).run ports outputs).next = .custom next := by
  by_cases hwork : ∀ behavior, work ≠ .custom behavior
  · refine .inl ?_
    rcases act_builtIn hwork c with ⟨e, hact⟩ | ⟨b, hact⟩
    · rw [hact]
      rfl
    · rw [hact, Activity.put]
      simp only [Activity.run]
      split <;> rfl
  · obtain ⟨behavior, rfl⟩ : ∃ behavior, work = .custom behavior := by simpa using hwork
    refine .inr ⟨⟨behavior, rfl⟩, ((Behavior.act behavior c).run ports outputs).next, ?_⟩
    exact congrArg Activity.Result.next (Activity.run_map custom _ ports outputs)

namespace Graph

variable {g h : Graph β} {id : NodeId} {n : Node β} {v : Bool}

def IsBuiltIn (g : Graph β) (id : NodeId) : Prop := ∃ n, g.node? id = some n ∧ n.IsBuiltIn

theorem isBuiltIn_iff (hn : g.node? id = some n) : g.IsBuiltIn id ↔ n.IsBuiltIn := by
  simp [IsBuiltIn, hn]

/-- The boolean at an input that is connected to some output or to none. -/
inductive Signals (g : Graph β) : Option Source → Bool → Prop
  | unconnected : Signals g none false
  | bridge {id : NodeId} {n : Node β} {l : LoopId} (live : g.node? id = some n)
      (type : n.type = .bridge) (work : n.work = some .bridge) (loop : n.loop? = some l) :
      Signals g (some (.output id 0)) (g.loops.isTriggered l)
  | constant {id : NodeId} {n : Node β} {b : Bool} (live : g.node? id = some n)
      (type : n.type = .constant) (work : n.work = some .constant)
      (value : n.params.get? valueParam = some (.bool b)) : Signals g (some (.output id 0)) b
  | boolOp {id : NodeId} {n : Node β} {op : BoolOp} {a b : Bool} (live : g.node? id = some n)
      (type : n.type = .boolOp) (work : n.work = some .boolOp)
      (operation : ((n.params.get? operationParam).bind Value.asText).bind BoolOp.ofName? = some op)
      (first : Signals g (g.feeder? id (.data 0)) a)
      (second : Signals g (g.feeder? id (.data 1)) b) :
      Signals g (some (.output id 0)) (op.apply a b)
  /-- The node does other work. -/
  | other {id : NodeId} {output : Nat} (other : ¬g.IsBuiltIn id) :
      Signals g (some (.output id output)) ((g.read (.output id output)).asBool.getD false)

theorem signals_none : g.Signals none v ↔ v = false := by
  constructor
  · rintro ⟨⟩
    rfl
  · rintro rfl
    exact .unconnected

theorem signals_other (hother : ¬g.IsBuiltIn id) {output : Nat} :
    g.Signals (some (.output id output)) v ↔
      v = (g.read (.output id output)).asBool.getD false := by
  constructor
  · intro hv
    cases hv with
    | bridge live type work => exact absurd ⟨_, live, .inl ⟨type, work⟩⟩ hother
    | boolOp live type work => exact absurd ⟨_, live, .inr (.inl ⟨type, work⟩)⟩ hother
    | constant live type work => exact absurd ⟨_, live, .inr (.inr ⟨type, work⟩)⟩ hother
    | other => rfl
  · rintro rfl
    exact .other hother

theorem signals_bridge (hn : g.node? id = some n) (htype : n.type = .bridge)
    (hwork : n.work = some .bridge) {l : LoopId} (hl : n.loop? = some l) :
    g.Signals (some (.output id 0)) v ↔ v = g.loops.isTriggered l := by
  constructor
  · intro hv
    cases hv with
    | bridge live type work loop =>
      obtain rfl := Option.some.inj (hn.symm.trans live)
      obtain rfl := Option.some.inj (hl.symm.trans loop)
      rfl
    | boolOp live type | constant live type =>
      obtain rfl := Option.some.inj (hn.symm.trans live)
      exact absurd (htype.symm.trans type) (by decide)
    | other other => exact absurd ⟨n, hn, .inl ⟨htype, hwork⟩⟩ other
  · rintro rfl
    exact .bridge hn htype hwork hl

theorem signals_constant (hn : g.node? id = some n) (htype : n.type = .constant)
    (hwork : n.work = some .constant) {b : Bool}
    (hb : n.params.get? valueParam = some (.bool b)) :
    g.Signals (some (.output id 0)) v ↔ v = b := by
  constructor
  · intro hv
    cases hv with
    | constant live type work value =>
      obtain rfl := Option.some.inj (hn.symm.trans live)
      exact Value.bool.inj (Option.some.inj (value.symm.trans hb))
    | boolOp live type | bridge live type =>
      obtain rfl := Option.some.inj (hn.symm.trans live)
      exact absurd (htype.symm.trans type) (by decide)
    | other other => exact absurd ⟨n, hn, .inr (.inr ⟨htype, hwork⟩)⟩ other
  · rintro rfl
    exact .constant hn htype hwork hb

theorem signals_boolOp (hn : g.node? id = some n) (htype : n.type = .boolOp)
    (hwork : n.work = some .boolOp) {op : BoolOp}
    (hop : ((n.params.get? operationParam).bind Value.asText).bind BoolOp.ofName? = some op) :
    g.Signals (some (.output id 0)) v ↔ ∃ a b, g.Signals (g.feeder? id (.data 0)) a ∧
      g.Signals (g.feeder? id (.data 1)) b ∧ v = op.apply a b := by
  constructor
  · intro hv
    cases hv with
    | boolOp live type work operation first second =>
      obtain rfl := Option.some.inj (hn.symm.trans live)
      obtain rfl := Option.some.inj (hop.symm.trans operation)
      exact ⟨_, _, first, second, rfl⟩
    | bridge live type | constant live type =>
      obtain rfl := Option.some.inj (hn.symm.trans live)
      exact absurd (htype.symm.trans type) (by decide)
    | other other => exact absurd ⟨n, hn, .inr (.inl ⟨htype, hwork⟩)⟩ other
  · rintro ⟨a, b, hfirst, hsecond, rfl⟩
    exact .boolOp hn htype hwork hop hfirst hsecond

/-- A node holds at its output the one boolean that the recursion gives it. -/
def HoldsSignal (g : Graph β) (id : NodeId) : Prop :=
  ∃ b, g.read (.output id 0) = .bool b ∧ ∀ v, g.Signals (some (.output id 0)) v ↔ v = b

/-! ### Running -/

section Running

variable [Behavior β]

theorem Effect.isBuiltIn_iff (e : Effect g h) (id : NodeId) : h.IsBuiltIn id ↔ g.IsBuiltIn id := by
  have hview (k : Graph β) : k.IsBuiltIn id ↔
      ∃ view, (k.node? id).map (fun n => (n.type, n.work)) = some view ∧
        ((view.1 = .bridge ∧ view.2 = some .bridge) ∨ (view.1 = .boolOp ∧ view.2 = some .boolOp) ∨
          (view.1 = .constant ∧ view.2 = some .constant)) := by
    simp [IsBuiltIn, Node.IsBuiltIn]
  cases e with
  | time | carry => rfl
  | propagate =>
    rw [hview, hview, node?_map, propagate_map g _ fun _ _ => rfl, ← node?_map]
  | invoke other n type work c live known works =>
    have hnode := node?_modifyNode g other id fun m =>
      let result := (Behavior.act work c).run type.outputs n.outputs
      { m with work := some result.next, outputs := result.outputs }
    split at hnode
    · next heq =>
      subst heq
      rw [live] at hnode
      rw [isBuiltIn_iff hnode, isBuiltIn_iff live]
      rcases work.next_cases c type.outputs n.outputs with hnext | ⟨⟨behavior, rfl⟩, next, hnext⟩
      · simp only [Node.IsBuiltIn, hnext, works]
      · simp [Node.IsBuiltIn, hnext, works]
    · rw [IsBuiltIn, hnode]
      rfl

/-- Running keeps built-in nodes what they are, and makes none of others. -/
theorem Effects.isBuiltIn_iff (e : Effects g h) (id : NodeId) :
    h.IsBuiltIn id ↔ g.IsBuiltIn id := by
  induction e with
  | refl => rfl
  | tail _ e ih => exact (e.isBuiltIn_iff id).trans ih

theorem Reachable.type?_running (hg : Reachable g) (hs : SameShape g h) {id : TypeId}
    {type : NodeType β} (hmem : NodeType.builtIn[id.index]? = some type) :
    h.type? id = some type := by
  rw [type?, hs.types]
  exact hg.type?_builtIn hmem

/-- Built-in types are combinational and have one output, which is boolean. -/
theorem Reachable.builtIn_type (hg : Reachable g) (hs : SameShape g h)
    (hbuiltIn : n.IsBuiltIn) : ∃ type port, h.type? n.type = some type ∧
      type.features.combinational = true ∧ type.outputs = [port] ∧ port.type = .bool := by
  rcases hbuiltIn with ⟨heq, _⟩ | ⟨heq, _⟩ | ⟨heq, _⟩
  · exact ⟨.bridge, _, hg.type?_running hs (by rw [heq]; rfl), rfl, rfl, rfl⟩
  · exact ⟨.boolOp, _, hg.type?_running hs (by rw [heq]; rfl), rfl, rfl, rfl⟩
  · exact ⟨.constant, _, hg.type?_running hs (by rw [heq]; rfl), rfl, rfl, rfl⟩

omit [Behavior β] in
theorem Integral.exists_output (hg : g.Integral) {c : Connection} (hc : c ∈ g.connections)
    {output : Nat} (hsource : c.sourcePort = .data output) :
    ∃ owner port, g.typeOf? c.source = some owner ∧ owner.outputs[output]? = some port := by
  obtain ⟨owner, sink, carried, howner, _, hcarries, hports⟩ := hg.fits c hc
  cases carried with
  | data own input =>
    obtain ⟨port, _, hport, _⟩ := hports
    obtain rfl := Port.data.inj ((Connection.ports_of_data hcarries).1.symm.trans hsource)
    exact ⟨owner, port, howner, hport⟩
  | gate own =>
    obtain ⟨port, hport, _⟩ := hports
    obtain rfl := Port.data.inj ((Connection.ports_of_gate hcarries).1.symm.trans hsource)
    exact ⟨owner, port, howner, hport⟩
  | loops => exact nomatch (Connection.ports_of_loops hcarries).1.symm.trans hsource

/-- Where its producers hold their signals, what is connected to an input of a node is the signal
there. -/
theorem Reachable.signals_feeder (hg : Reachable g) (hs : SameShape g h) (id : NodeId)
    (port : Port) (hproducers : ∀ c ∈ g.dependencies, c.sink = id → h.IsBuiltIn c.source →
      h.HoldsSignal c.source) (v : Bool) : h.Signals (h.feeder? id port) v ↔
      v = (((h.feeder? id port).map h.read).getD .empty).asBool.getD false := by
  have hi := hg.integral.of_sameShape hs
  cases hfeeder : h.feeder? id port with
  | none => exact signals_none
  | some source =>
    obtain ⟨c, hc, output, hsink, _, hsource, rfl⟩ := hi.feeder?_eq_some.mp hfeeder
    by_cases hbuiltIn : h.IsBuiltIn c.source
    · obtain ⟨owner, declared, howner, hdeclared⟩ :=
        hi.exists_output (List.mem_filter.mp hc).1 hsource
      obtain ⟨n, hn, hknown⟩ := typeOf?_isSome howner
      obtain ⟨type, only, htype, _, houtputs, _⟩ :=
        hg.builtIn_type hs ((isBuiltIn_iff hn).mp hbuiltIn)
      obtain rfl := Option.some.inj (hknown.symm.trans htype)
      -- a built-in node has no output but the first
      obtain rfl : output = 0 := by
        have hlt := (List.getElem?_eq_some_iff.mp hdeclared).1
        rw [houtputs, List.length_singleton] at hlt
        exact Nat.lt_one_iff.mp hlt
      rw [dependencies, hs.connections] at hc
      obtain ⟨b, hread, hsignals⟩ := hproducers c hc hsink hbuiltIn
      rw [hsignals, Option.map_some, Option.getD_some, hread]
      rfl
    · exact signals_other hbuiltIn

end Running

end Graph

end FrameGraph
