import FrameGraph.Proofs.Graph.Naming
import FrameGraph.Proofs.Graph.Outputs

/-! Combinational nodes as functions. Pure work keeps no state and decides all its outputs by
inputs, parameters and the flags of loops. Built-in work is pure, and running a graph whose
combinational nodes are pure leaves them so. -/

namespace FrameGraph

variable {β : Type}

/-- A loop is registered, visible and triggered. -/
def Context.flag (c : Context) (l : LoopId) : Bool := c.loops.any fun t => t.isTriggered l

/-- Contexts with the same inputs, parameters and flags, those of one loop apart. -/
structure Context.FlagsAlike (l : LoopId) (c d : Context) : Prop where
  inputs : d.inputs = c.inputs
  params : d.params = c.params
  access : d.loops.isSome = c.loops.isSome
  flags : ∀ other ≠ l, d.flag other = c.flag other

theorem Context.FlagsAlike.refl {l : LoopId} (c : Context) : c.FlagsAlike l c :=
  ⟨rfl, rfl, rfl, fun _ _ => rfl⟩

namespace Work

def isCustom : Work β → Bool
  | custom _ => true
  | _ => false

variable [Behavior β] {l : LoopId}

/-- On a node with these outputs and parameters work is a function of inputs and of all flags but
one: it keeps its state, and in contexts alike it fails or leaves the same outputs, whatever was
there. -/
structure IsPure (l : LoopId) (ports : List OutputPort) (params : Params) (work : Work β) :
    Prop where
  next : ∀ (c : Context) (outputs : List Value), c.params = params →
    outputs.length = ports.length → ((Behavior.act work c).run ports outputs).next = work
  result : ∀ (c d : Context) (outputs others : List Value), c.params = params →
    c.FlagsAlike l d → outputs.length = ports.length → others.length = ports.length →
    ((Behavior.act work d).run ports others).failure =
        ((Behavior.act work c).run ports outputs).failure ∧
      (((Behavior.act work c).run ports outputs).failure = none →
        ((Behavior.act work d).run ports others).outputs =
          ((Behavior.act work c).run ports outputs).outputs)

omit [Behavior β] in
theorem run_put {port : OutputPort} (hport : port.type = .bool) (work : Work β) (b : Bool)
    {outputs : List Value} (hlength : outputs.length = [port].length) :
    (Activity.put work 0 (.bool b)).run [port] outputs = ⟨work, [.bool b], [], none⟩ := by
  obtain ⟨value, rfl⟩ := List.length_eq_one_iff.mp hlength
  have haccepted : OutputPort.refusal? [port] 0 (.bool b) = none := by
    simp [OutputPort.refusal?, Value.fits, Value.type?, hport]
  simp [Activity.put, Activity.run, haccepted]

/-- Built-in work fails at once or writes one value. -/
theorem act_builtIn {work : Work β} (hwork : ∀ behavior, work ≠ .custom behavior) (c : Context) :
    (∃ e, Behavior.act work c = .finish work (some e)) ∨
      ∃ b, Behavior.act work c = .put work 0 (.bool b) := by
  cases work with
  | custom behavior => exact absurd rfl (hwork behavior)
  | bridge =>
    change (∃ e, actBridge c = _) ∨ ∃ b, actBridge c = _
    unfold actBridge
    split
    · exact .inl ⟨_, rfl⟩
    · exact .inr ⟨_, rfl⟩
  | boolOp =>
    change (∃ e, actBoolOp c = _) ∨ ∃ b, actBoolOp c = _
    unfold actBoolOp
    dsimp only
    split
    · exact .inl ⟨_, rfl⟩
    · exact .inr ⟨_, rfl⟩
  | constant => exact .inr ⟨_, rfl⟩

/-- Built-in work does the same on the same inputs and parameters, a bridge if its loop has the same
flag. -/
theorem act_builtIn_congr {work : Work β} (hwork : ∀ behavior, work ≠ .custom behavior)
    {c d : Context} (hinputs : d.inputs = c.inputs) (hparams : d.params = c.params)
    (hflag : work = .bridge → ∀ named,
      (c.params.get? loopParam).bind Value.asLoop = some named → d.flag named = c.flag named) :
    Behavior.act work d = Behavior.act work c := by
  cases work with
  | custom behavior => exact absurd rfl (hwork behavior)
  | bridge =>
    change actBridge d = actBridge c
    rw [actBridge, actBridge, hparams]
    cases hloop : (c.params.get? loopParam).bind Value.asLoop with
    | none => rfl
    | some named =>
      exact congrArg (fun b => Activity.put bridge 0 (.bool b)) (hflag rfl named hloop)
  | boolOp =>
    change actBoolOp d = actBoolOp c
    simp only [actBoolOp, Context.input, hparams, hinputs]
  | constant =>
    change actConstant d = actConstant c
    rw [actConstant, actConstant, hparams]

theorem isPure_builtIn {work : Work β} (hwork : ∀ behavior, work ≠ .custom behavior)
    {port : OutputPort} (hport : port.type = .bool) {params : Params}
    (hnamed : work = .bridge → (params.get? loopParam).bind Value.asLoop ≠ some l) :
    work.IsPure l [port] params := by
  refine ⟨fun c outputs hc hlength => ?_, fun c d outputs others hc hd hlength hother => ?_⟩
  · rcases act_builtIn hwork c with ⟨e, hact⟩ | ⟨b, hact⟩
    · rw [hact]
      rfl
    · rw [hact, run_put hport _ _ hlength]
  · have hflag (hbridge : work = .bridge) (named : LoopId)
        (hloop : (c.params.get? loopParam).bind Value.asLoop = some named) :
        d.flag named = c.flag named := by
      rw [hc] at hloop
      exact hd.flags named fun heq => hnamed hbridge (heq ▸ hloop)
    rw [act_builtIn_congr hwork hd.inputs hd.params hflag]
    rcases act_builtIn hwork c with ⟨e, hact⟩ | ⟨b, hact⟩
    · rw [hact]
      exact ⟨rfl, fun hnone => nomatch hnone⟩
    · rw [hact, run_put hport _ _ hlength, run_put hport _ _ hother]
      exact ⟨rfl, fun _ => rfl⟩

end Work

namespace Graph

variable {g h : Graph β} {l : LoopId}

/-- The built-in types keep their numbers. -/
theorem Reachable.builtIn_types [Behavior β] (hg : Reachable g) :
    ∃ added, g.types = NodeType.builtIn ++ added := by
  refine hg.invariant (P := fun g => ∃ added, g.types = NodeType.builtIn ++ added)
    (fun _ _ => ⟨[], (List.append_nil _).symm⟩) fun g h ⟨added, htypes⟩ hc => ?_
  cases hc with
  | edit e =>
    cases e with
    | registerType type => exact ⟨added ++ [type], by rw [htypes, List.append_assoc]⟩
    | _ => exact ⟨added, htypes⟩
  | runFrame limit plan override watch =>
    exact ⟨added, (g.runFrame_sameShape limit plan override watch).types.trans htypes⟩

def Pure [Behavior β] (g : Graph β) (l : LoopId) : Prop :=
  ∀ n ∈ g.nodes, ∀ type work, g.type? n.type = some type → type.features.combinational = true →
    n.work = some work → work.IsPure l type.outputs n.params

/-- Combinational nodes with a type or with work of the application are pure. -/
def CustomPure [Behavior β] (g : Graph β) (l : LoopId) : Prop :=
  ∀ n ∈ g.nodes, ∀ type work, g.type? n.type = some type → type.features.combinational = true →
    n.work = some work →
    (NodeType.builtIn (β := β)).length ≤ n.type.index ∨ (∃ behavior, work = .custom behavior) →
    work.IsPure l type.outputs n.params

/-- Where combinational nodes are built in, nothing is asked of the application. -/
theorem CustomPure.of_builtIn [Behavior β] (h : ∀ n ∈ g.nodes,
    (g.type? n.type).any (fun type => type.features.combinational) = true →
      n.type.index < (NodeType.builtIn (β := β)).length ∧
        (n.work.all fun work => !work.isCustom) = true) : g.CustomPure l := by
  intro n hn type work htype hcombinational hwork happlication
  obtain ⟨hindex, hbuiltIn⟩ := h n hn (by rw [htype]; exact hcombinational)
  rcases happlication with hadded | ⟨behavior, rfl⟩
  · exact absurd hindex (Nat.not_lt.mpr hadded)
  · rw [hwork] at hbuiltIn
    cases hbuiltIn

variable [Behavior β]

/-- Of a reachable graph only what is of the application has to be pure. -/
theorem Reachable.pure (hg : Reachable g) (hunnamed : g.Unnamed l) (hcustom : g.CustomPure l) :
    g.Pure l := by
  intro n hn type work htype hcombinational hwork
  by_cases happlication : (NodeType.builtIn (β := β)).length ≤ n.type.index ∨
      ∃ behavior, work = .custom behavior
  · exact hcustom n hn type work htype hcombinational hwork happlication
  · rw [not_or, Nat.not_le, not_exists] at happlication
    obtain ⟨hindex, hbuiltIn⟩ := happlication
    obtain ⟨added, htypes⟩ := hg.builtIn_types
    rw [type?, htypes, List.getElem?_append_left hindex] at htype
    obtain ⟨port, hport, houtputs⟩ : ∃ port : OutputPort, port.type = .bool ∧
        type.outputs = [port] := by
      have hmem := List.mem_of_getElem? htype
      simp only [NodeType.builtIn, List.mem_cons, List.not_mem_nil, or_false] at hmem
      rcases hmem with rfl | rfl | rfl <;> exact ⟨_, rfl, rfl⟩
    rw [houtputs]
    exact Work.isPure_builtIn hbuiltIn hport fun hbridge =>
      hunnamed n hn (.inr (hwork.trans (congrArg some hbridge)))

/-- Running keeps pure nodes as they are. -/
theorem Pure.effect (hg : g.Pure l) (hfilled : g.Filled) (e : Effect g h) : h.Pure l := by
  cases e with
  | time | carry => exact hg
  | propagate =>
    intro n hn type work htype hcombinational hwork
    obtain ⟨m, hm, hsame⟩ := mem_nodes_of_view
      (propagate_map g (fun n => (n.type, n.work, n.params)) fun _ _ => rfl) hn
    obtain ⟨htype', hwork', hparams⟩ : m.type = n.type ∧ m.work = n.work ∧ m.params = n.params := by
      simpa using hsame
    rw [← hparams]
    exact hg m hm type work (htype' ▸ htype) hcombinational (hwork'.trans hwork)
  | invoke id n type work c live known works params =>
    intro m hm type' work' htype hcombinational hwork
    rcases mem_nodes_modifyNode live hm with rfl | hold
    · obtain rfl : type' = type := Option.some.inj (htype.symm.trans known)
      have hpure := hg n (mem_nodes_of_node? live) type' work known hcombinational works
      have hnext := hpure.next c n.outputs params (hfilled.outputs live known)
      obtain rfl : work = work' := hnext.symm.trans (Option.some.inj hwork)
      exact hpure
    · exact hg m hold type' work' htype hcombinational hwork

theorem Pure.effects (hg : g.Pure l) (hfilled : g.Filled) (e : Effects g h) : h.Pure l := by
  induction e with
  | refl => exact hg
  | tail before e ih => exact ih.effect (hfilled.effects before) e

end Graph

end FrameGraph
