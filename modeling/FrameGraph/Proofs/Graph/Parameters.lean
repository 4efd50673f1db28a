import FrameGraph.Proofs.Graph.Purity

/-! Parameters of nodes. A node begins with the defaults of its type and never loses a parameter; a
value is stored only if the type accepts it and a loop in it is registered. So whatever a
parameter holds is the type's default or was accepted, and the built-in nodes find what their
work asks for. -/

namespace FrameGraph

variable {β : Type}

/-- The parameters of a node go with its type: each is the default or was accepted, and no parameter
with a default is missing. -/
structure NodeType.Allows (type : NodeType β) (loops : LoopTable Float) (params : Params) :
    Prop where
  accepted : ∀ name value, params.get? name = some value → type.defaults.get? name = some value ∨
    type.check name value = none ∧ ∀ l, value.asLoop = some l → loops.has l = true
  present : ∀ name, (type.defaults.get? name).isSome → (params.get? name).isSome

namespace NodeType.Allows

variable {type : NodeType β} {loops more : LoopTable Float} {params : Params}

theorem defaults (type : NodeType β) (loops : LoopTable Float) : type.Allows loops type.defaults :=
  ⟨fun _ _ h => .inl h, fun _ h => h⟩

theorem mono (h : type.Allows loops params) (hmore : loops.loops.length ≤ more.loops.length) :
    type.Allows more params := by
  refine ⟨fun name value hvalue => ?_, h.present⟩
  refine (h.accepted name value hvalue).imp_right fun ⟨hcheck, hloops⟩ => ⟨hcheck, fun l hl => ?_⟩
  have hhas := hloops l hl
  rw [LoopTable.has, decide_eq_true_iff] at hhas ⊢
  exact Nat.lt_of_lt_of_le hhas hmore

theorem insert (h : type.Allows loops params) {name : String} {value : Value}
    (hcheck : type.check name value = none)
    (hloops : ∀ l, value.asLoop = some l → loops.has l = true) :
    type.Allows loops (params.insert name value) := by
  refine ⟨fun other stored hstored => ?_, fun other hother => ?_⟩
  · rw [Params.get?_insert] at hstored
    split at hstored
    · next heq =>
      obtain rfl := Option.some.inj hstored
      exact .inr ⟨heq ▸ hcheck, hloops⟩
    · exact h.accepted other stored hstored
  · rw [Params.get?_insert]
    split
    · rfl
    · exact h.present other hother

end NodeType.Allows

namespace Graph

variable {g h : Graph β}

def Accepted (g : Graph β) : Prop :=
  ∀ n ∈ g.nodes, ∃ type, g.type? n.type = some type ∧ type.Allows g.loops n.params

/-- Where types and parameters of the nodes are as before and no loop is gone. -/
theorem Accepted.of_slots (hg : g.Accepted) (htypes : h.types = g.types)
    (hloops : g.loops.loops.length ≤ h.loops.loops.length)
    (hslots : h.slots.map (Option.map fun n => (n.type, n.params)) =
      g.slots.map (Option.map fun n => (n.type, n.params))) : h.Accepted := by
  intro n hn
  obtain ⟨m, hm, hsame⟩ := mem_nodes_of_view hslots hn
  obtain ⟨htype, hparams⟩ := Prod.mk.inj hsame
  obtain ⟨type, hknown, hallows⟩ := hg m hm
  exact ⟨type, by rw [type?, htypes, ← htype]; exact hknown, hparams ▸ hallows.mono hloops⟩

theorem Accepted.edit (hg : g.Accepted) (e : Edit g h) : h.Accepted := by
  cases e with
  | registerLoop config loops id accepted =>
    obtain ⟨_, _, rfl⟩ := LoopTable.register_eq_ok accepted
    exact hg.of_slots rfl (by simp) rfl
  | registerType type =>
    intro n hn
    obtain ⟨known, hknown, hallows⟩ := hg n hn
    have hlt : n.type.index < g.types.length := (List.getElem?_eq_some_iff.mp hknown).1
    exact ⟨known, (type?_append _ hlt).trans hknown, hallows⟩
  | create typeId type name known fresh room =>
    intro n hn
    rw [nodes_place, List.mem_append, List.mem_singleton] at hn
    rcases hn with hold | rfl
    · exact hg n hold
    · exact ⟨type, known, .defaults type g.loops⟩
  | remove id => exact fun n hn => hg n ((filterMap_set_none_sublist _ _).subset hn)
  | setParam id name value node type live known registered accepted =>
    intro n hn
    rcases mem_nodes_modifyNode live hn with rfl | hold
    · obtain ⟨found, hfound, hallows⟩ := hg node (mem_nodes_of_node? live)
      obtain rfl := Option.some.inj (known.symm.trans hfound)
      exact ⟨type, known, hallows.insert accepted registered⟩
    · exact hg n hold
  | setDevice id | setBehavior id =>
    exact hg.of_slots rfl (Nat.le_refl _) (modifyNode_map g id _ _ fun _ _ => rfl)
  | propagate => exact hg.of_slots rfl (Nat.le_refl _) (propagate_map g _ fun _ _ => rfl)
  | setConfig | connect | connectLoops | disconnect | compile | advanceClock => exact hg

theorem Accepted.allows (hg : g.Accepted) {n : Node β} (hn : n ∈ g.nodes) {type : NodeType β}
    (htype : g.type? n.type = some type) : type.Allows g.loops n.params := by
  obtain ⟨found, hfound, hallows⟩ := hg n hn
  obtain rfl := Option.some.inj (htype.symm.trans hfound)
  exact hallows

theorem Accepted.bridge_loop (hg : g.Accepted) {n : Node β} (hn : n ∈ g.nodes)
    (htype : g.type? n.type = some .bridge) {l : LoopId} (hl : n.loop? = some l) :
    g.loops.has l = true := by
  obtain ⟨value, hvalue, hasLoop⟩ := Option.bind_eq_some_iff.mp hl
  rcases (hg.allows hn htype).accepted loopParam value hvalue with hdefault | ⟨_, hloops⟩
  · cases hdefault
  · exact hloops l hasLoop

theorem Accepted.constant_value (hg : g.Accepted) {n : Node β} (hn : n ∈ g.nodes)
    (htype : g.type? n.type = some .constant) :
    ∃ b, n.params.get? valueParam = some (.bool b) := by
  have hallows := hg.allows hn htype
  obtain ⟨value, hvalue⟩ := Option.isSome_iff_exists.mp (hallows.present valueParam rfl)
  rcases hallows.accepted valueParam value hvalue with hdefault | ⟨hcheck, _⟩
  · exact ⟨false, hvalue.trans hdefault.symm⟩
  · have hbool : value.asBool ≠ none := by
      simpa [NodeType.constant, ParamCheck.constant] using hcheck
    cases value with
    | bool b => exact ⟨b, hvalue⟩
    | _ => exact absurd rfl hbool

variable [Behavior β]

theorem Accepted.effects (hg : g.Accepted) (e : Effects g h) : h.Accepted := by
  induction e with
  | refl => exact hg
  | tail _ e ih =>
    cases e with
    | time loops timer frame registered =>
      exact ih.of_slots rfl (Nat.le_of_eq registered.symm) rfl
    | propagate => exact ih.of_slots rfl (Nat.le_refl _) (propagate_map _ _ fun _ _ => rfl)
    | carry => exact ih
    | invoke id n type work c live =>
      exact ih.of_slots rfl (Nat.le_refl _) (modifyNode_map _ id _ _ fun _ _ => rfl)

/-- The parameters of every node of a reachable graph are defaults or were accepted. -/
theorem Reachable.accepted (hg : Reachable g) : g.Accepted := by
  refine hg.invariant (fun _ _ n hn => nomatch hn) fun g h haccepted hc => ?_
  cases hc with
  | edit e => exact haccepted.edit e
  | runFrame limit plan override watch =>
    exact haccepted.effects (g.runFrame_effects limit plan override watch)

theorem Reachable.type?_builtIn (hg : Reachable g) {id : TypeId} {type : NodeType β}
    (h : NodeType.builtIn[id.index]? = some type) : g.type? id = some type := by
  obtain ⟨added, htypes⟩ := hg.builtIn_types
  rw [type?, htypes, List.getElem?_append_left (List.getElem?_eq_some_iff.mp h).1, h]

end Graph

end FrameGraph
