import FrameGraph.Proofs.Graph.Identity
import FrameGraph.Proofs.Graph.Parameters

/-! What a node may hold. A value is checked when it is stored, so from then on the type of its node
admits it for as long as the node lives. The defaults of a type reach its nodes without that check.
So a node holds nothing but defaults of its type and what the type admits, and defaults that the
type itself refuses stand on every new node of it. -/

namespace FrameGraph

variable {β : Type}

/-- The type takes the value for the parameter, and a loop in the value is registered. -/
def NodeType.Admits (type : NodeType β) (loops : LoopTable Float) (name : String) (value : Value) :
    Prop :=
  type.check name value = none ∧ ∀ l, value.asLoop = some l → loops.has l = true

namespace Graph

variable {g h k : Graph β}

/-- The type of a live node admits what the node holds under a name. -/
def Vouches (g : Graph β) (id : NodeId) (name : String) : Prop :=
  ∀ n, g.node? id = some n → ∃ type, g.type? n.type = some type ∧
    ∀ value, n.params.get? name = some value → type.Admits g.loops name value

/-- Between two graphs types and loops are kept, and a node that was given its number by then gains
no parameter that its type does not admit. -/
structure Guards (g h : Graph β) : Prop where
  given : g.slots.length ≤ h.slots.length
  types : ∀ id type, g.type? id = some type → h.type? id = some type
  loops : ∀ l, g.loops.has l = true → h.loops.has l = true
  params : ∀ id n, h.node? id = some n → id.index < g.slots.length →
    ∃ m, g.node? id = some m ∧ n.type = m.type ∧
      ∀ name value, n.params.get? name = some value → m.params.get? name = some value ∨
        ∃ type, h.type? n.type = some type ∧ type.Admits h.loops name value

namespace Guards

theorem refl (g : Graph β) : Guards g g :=
  ⟨Nat.le_refl _, fun _ _ h => h, fun _ h => h, fun _ n hn _ => ⟨n, hn, rfl, fun _ _ h => .inl h⟩⟩

theorem trans (hgh : Guards g h) (hhk : Guards h k) : Guards g k := by
  refine ⟨hgh.given.trans hhk.given, fun id type ht => hhk.types id type (hgh.types id type ht),
    fun l hl => hhk.loops l (hgh.loops l hl), fun id n hn hid => ?_⟩
  obtain ⟨m, hm, htype, hlate⟩ := hhk.params id n hn (hid.trans_le hgh.given)
  obtain ⟨first, hfirst, htype', hearly⟩ := hgh.params id m hm hid
  refine ⟨first, hfirst, htype.trans htype', fun name value hvalue => ?_⟩
  rcases hlate name value hvalue with hold | hadmitted
  · refine (hearly name value hold).imp_right fun ⟨type, hknown, hcheck, hloops⟩ => ?_
    exact ⟨type, htype ▸ hhk.types m.type type hknown, hcheck,
      fun l hl => hhk.loops l (hloops l hl)⟩
  · exact .inr hadmitted

theorem of_slots (htypes : h.types = g.types)
    (hloops : g.loops.loops.length ≤ h.loops.loops.length)
    (hslots : h.slots.map (Option.map fun n => (n.type, n.params)) =
      g.slots.map (Option.map fun n => (n.type, n.params))) : Guards g h := by
  refine ⟨Nat.le_of_eq (by simpa using congrArg List.length hslots.symm),
    fun id type ht => by rwa [type?, htypes], fun l hl => ?_, fun id n hn _ => ?_⟩
  · simp only [LoopTable.has, decide_eq_true_eq] at hl ⊢
    omega
  · obtain ⟨m, hm, hsame⟩ := node?_of_view hslots hn
    obtain ⟨htype, hparams⟩ := Prod.mk.inj hsame
    exact ⟨m, hm, htype.symm, fun name value hvalue => .inl (hparams ▸ hvalue)⟩

theorem of_nodes (hlength : g.slots.length ≤ h.slots.length)
    (htypes : ∀ id type, g.type? id = some type → h.type? id = some type)
    (hloops : h.loops = g.loops)
    (hnodes : ∀ id n, h.node? id = some n → id.index < g.slots.length → g.node? id = some n) :
    Guards g h :=
  ⟨hlength, htypes, fun _ hl => by rwa [hloops],
    fun id n hn hid => ⟨n, hnodes id n hn hid, rfl, fun _ _ hvalue => .inl hvalue⟩⟩

end Guards

theorem Edit.guards (e : Edit g h) : Guards g h := by
  cases e with
  | registerLoop config loops id accepted =>
    obtain ⟨_, _, rfl⟩ := LoopTable.register_eq_ok accepted
    exact .of_slots rfl (by simp) rfl
  | registerType type =>
    refine .of_nodes (Nat.le_refl _) (fun id known hknown => ?_) rfl fun _ _ hn _ => hn
    exact (type?_append _ (List.getElem?_eq_some_iff.mp hknown).1).trans hknown
  | create typeId type name known fresh room =>
    refine .of_nodes (by simp [place]) (fun _ _ ht => ht) rfl fun id n hn hid => ?_
    rwa [node?_place, if_neg (Nat.ne_of_lt hid)] at hn
  | remove id node live =>
    refine .of_nodes (by simp) (fun _ _ ht => ht) rfl fun other n hn _ => ?_
    rw [node?_set_none] at hn
    split at hn
    · cases hn
    · exact hn
  | setParam id name value node type live known registered accepted =>
    refine ⟨by simp [modifyNode], fun _ _ ht => ht, fun _ hl => hl, fun other n hn _ => ?_⟩
    change (g.modifyNode id _).node? other = some n at hn
    rw [node?_modifyNode] at hn
    split at hn
    · next heq =>
      subst heq
      rw [live] at hn
      obtain rfl := Option.some.inj hn
      refine ⟨node, live, rfl, fun key stored hstored => ?_⟩
      rw [Params.get?_insert] at hstored
      split at hstored
      · next hkey =>
        subst hkey
        obtain rfl := Option.some.inj hstored
        exact .inr ⟨type, known, accepted, registered⟩
      · exact .inl hstored
    · exact ⟨n, hn, rfl, fun _ _ hvalue => .inl hvalue⟩
  | setDevice id | setBehavior id =>
    exact .of_slots rfl (Nat.le_refl _) (modifyNode_map g id _ _ fun _ _ => rfl)
  | propagate => exact .of_slots rfl (Nat.le_refl _) (propagate_map g _ fun _ _ => rfl)
  | setConfig | connect | connectLoops | disconnect | compile | advanceClock =>
    exact .of_slots rfl (Nat.le_refl _) rfl

/-- The type of a node admits what was just stored on it. -/
theorem setParam_vouches {id : NodeId} {name : String} {value : Value}
    (hc : g.setParam id name value = (h, .ok ())) :
    id.index < h.slots.length ∧ h.Vouches id name := by
  obtain ⟨e, hset⟩ | ⟨node, type, live, known, registered, accepted, hset⟩ :=
    g.setParam_cases id name value
  · cases hset.symm.trans hc
  obtain ⟨rfl, _⟩ := Prod.mk.inj (hset.symm.trans hc)
  refine ⟨by simpa [modifyNode] using index_lt_of_node? live, fun n hn => ⟨type, ?_⟩⟩
  change (g.modifyNode id _).node? id = some n at hn
  rw [node?_modifyNode, if_pos rfl, live] at hn
  obtain rfl := Option.some.inj hn
  refine ⟨known, fun stored hstored => ?_⟩
  rw [Params.get?_insert, if_pos rfl] at hstored
  exact Option.some.inj hstored ▸ ⟨accepted, registered⟩

/-- What the type of a node admits under a name it admits for as long as the node lives. -/
theorem Guards.vouches (hgh : Guards g h) {id : NodeId} {name : String}
    (hid : id.index < g.slots.length) (hg : g.Vouches id name) : h.Vouches id name := by
  intro n hn
  obtain ⟨m, hm, htype, hparams⟩ := hgh.params id n hn hid
  obtain ⟨type, hknown, hadmits⟩ := hg m hm
  have hkept : h.type? n.type = some type := htype ▸ hgh.types m.type type hknown
  refine ⟨type, hkept, fun value hvalue => ?_⟩
  rcases hparams name value hvalue with hold | ⟨found, hfound, hadmitted⟩
  · obtain ⟨hcheck, hloops⟩ := hadmits value hold
    exact ⟨hcheck, fun l hl => hgh.loops l (hloops l hl)⟩
  · obtain rfl := Option.some.inj (hkept.symm.trans hfound)
    exact hadmitted

variable [Behavior β]

theorem Effect.guards (e : Effect g h) : Guards g h := by
  cases e with
  | time loops timer frame registered => exact .of_slots rfl (Nat.le_of_eq registered.symm) rfl
  | propagate => exact .of_slots rfl (Nat.le_refl _) (propagate_map _ _ fun _ _ => rfl)
  | carry => exact .of_slots rfl (Nat.le_refl _) rfl
  | invoke id n type work c live =>
    exact .of_slots rfl (Nat.le_refl _) (modifyNode_map _ id _ _ fun _ _ => rfl)

theorem Effects.guards (e : Effects g h) : Guards g h := by
  induction e with
  | refl => exact .refl g
  | tail _ e ih => exact ih.trans e.guards

theorem Change.guards (hc : Change g h) : Guards g h := by
  cases hc with
  | edit e => exact e.guards
  | runFrame limit plan override watch =>
    exact (g.runFrame_effects limit plan override watch).guards

theorem LeadsTo.guards (hgh : LeadsTo g h) : Guards g h := by
  have hchanges {g h : Graph β} (hc : Relation.ReflTransGen Change g h) : Guards g h := by
    induction hc with
    | refl => exact .refl g
    | tail _ hc ih => exact ih.trans hc.guards
  induction hgh with
  | refl => exact .refl g
  | run _ c ih => exact ih.trans (hchanges (run_changes c))

/-- Whatever a live node holds is a default of its type or is admitted by it. What was stored by a
command that was not refused is admitted, and so is all that replaces it, for as long as the node
lives and whatever commands follow. -/
theorem Reachable.validity (hg : Reachable g) :
    (∀ n ∈ g.nodes, ∃ type, g.type? n.type = some type ∧ ∀ name value,
      n.params.get? name = some value →
        type.defaults.get? name = some value ∨ type.Admits g.loops name value) ∧
    ∀ id name value h, g.setParam id name value = (h, .ok ()) →
      ∀ k, LeadsTo h k → k.Vouches id name := by
  refine ⟨fun n hn => ?_, fun id name value h hc k hhk => ?_⟩
  · obtain ⟨type, hknown, hallows⟩ := hg.accepted n hn
    exact ⟨type, hknown, hallows.accepted⟩
  · obtain ⟨hid, hvouches⟩ := setParam_vouches hc
    exact hhk.guards.vouches hid hvouches

def emitterType : NodeType Script where
  name := "Emitter"
  defaults := .ofList [("clock", .loop ⟨7⟩), ("speed", .int (-1))]
  check := fun _ value =>
    if value.asInt.any (· < 0) then some "must be non-negative" else none

def emitter : Graph Script :=
  let typed := (Command.run ({} : Graph Script) (.registerType emitterType)).graph
  (Command.run typed (.create ⟨3⟩ "sparks")).graph

theorem emitter_reachable : Reachable emitter := ((Reachable.new _ _).run _).run _

/-- The emitter with a speed that its type admits. -/
def emitterSlow : Graph Script := (Command.run emitter (.setParam ⟨0⟩ "speed" (.int 2))).graph

theorem emitterSlow_vouches : Reachable emitter ∧
    emitter.setParam ⟨0⟩ "speed" (.int 2) = (emitterSlow, .ok ()) ∧
    ∀ k, LeadsTo emitterSlow k → k.Vouches ⟨0⟩ "speed" := by
  have hstored : emitter.setParam ⟨0⟩ "speed" (.int 2) = (emitterSlow, .ok ()) := rfl
  exact ⟨emitter_reachable, hstored, emitter_reachable.validity.2 _ _ _ _ hstored⟩

/-- The new node holds a speed and a loop that are refused when they are to be stored. -/
theorem emitter_invalid : Reachable emitter ∧
    ∃ n ∈ emitter.nodes, emitter.type? n.type = some emitterType ∧
      n.params.get? "speed" = some (.int (-1)) ∧
      emitterType.check "speed" (.int (-1)) = some "must be non-negative" ∧
      n.params.get? "clock" = some (.loop ⟨7⟩) ∧ emitter.loops.has ⟨7⟩ = false ∧
      (emitter.setParam n.id "speed" (.int (-1))).2.toOption.isNone ∧
      (emitter.setParam n.id "clock" (.loop ⟨7⟩)).2.toOption.isNone := by
  refine ⟨emitter_reachable, Node.ofType ⟨0⟩ "sparks" ⟨3⟩ emitterType, ?_⟩
  exact ⟨List.mem_singleton_self _, rfl, by decide +kernel⟩

end Graph

end FrameGraph
