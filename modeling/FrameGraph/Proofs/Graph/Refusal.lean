import FrameGraph.Proofs.Graph.Parameters

/-! Refusals leave no trace. Most edits check everything before they write anything. The
additions of built-in nodes do two things in turn, so all depends on the second: a
parameter on a node that was just created, which is never refused, because the node is
live, the built-in types keep their numbers and accept what the additions store, and the
loop of a bridge was looked up before. A frame that is refused is not begun. -/

namespace FrameGraph

namespace ParamCheck

theorem bridge_loop (l : LoopId) : bridge loopParam (.loop l) = none := rfl

theorem boolOp_name (op : BoolOp) : boolOp operationParam (.text op.name) = none := by
  simp [boolOp, Value.asText, BoolOp.ofName?_name]

theorem constant_bool (b : Bool) : constant valueParam (.bool b) = none := rfl

end ParamCheck

namespace Graph

variable {β : Type} {g h : Graph β}

/-! ### Additions of built-in nodes -/

theorem setParam_accepted {id : NodeId} {name : String} {value : Value} {n : Node β}
    {type : NodeType β} (registered : ∀ l, value.asLoop = some l → g.loops.has l = true)
    (live : g.node? id = some n) (known : g.type? n.type = some type)
    (accepted : type.check name value = none) :
    ∃ next, Relation.ReflTransGen Edit g next ∧ g.setParam id name value = (next, .ok ()) := by
  have hloop : (value.asLoop.filter fun l => !g.loops.has l) = none := by
    rw [Option.filter_eq_none_iff]
    intro l hl
    simp [registered l hl]
  have hanswer : (g.setParam id name value).2 = .ok () := by
    unfold setParam
    simp only [hloop, live, known, accepted]
  obtain ⟨e, hc⟩ | ⟨next, _, hedits, hc⟩ := g.setParam_atomic id name value
  · rw [hc] at hanswer
    cases hanswer
  · exact ⟨next, hedits, hc⟩

/-- When the type accepts the parameter, a node is added as a whole or not at all. -/
theorem createWith_atomic {typeId : TypeId} {type : NodeType β} {name param : String}
    {value : Value} (known : g.type? typeId = some type)
    (registered : ∀ l, value.asLoop = some l → g.loops.has l = true)
    (accepted : type.check param value = none) :
    Atomic g (g.createWith typeId name param value) := by
  unfold createWith
  obtain ⟨e, hcreate⟩ | ⟨found, hfound, fresh, room, hcreate⟩ := g.create_cases typeId name
  · rw [hcreate]
    exact .refuse g e
  · obtain rfl := Option.some.inj (hfound.symm.trans known)
    have hcreated := Edit.create typeId found name known fresh room
    -- the second half is accepted on what the first half has made
    have hlive : (g.place (.ofType ⟨g.slots.length⟩ name typeId found)).node? ⟨g.slots.length⟩ =
        some (.ofType ⟨g.slots.length⟩ name typeId found) := by rw [node?_place, if_pos rfl]
    obtain ⟨next, hedits, hstored⟩ :=
      setParam_accepted (g := g.place _) registered hlive known accepted
    rw [hcreate]
    dsimp only
    rw [hstored]
    exact .inr ⟨next, _, .head hcreated hedits, rfl⟩

variable [Behavior β]

theorem Reachable.addBridge_atomic (hg : Reachable g) (name : String) (l : LoopId) :
    Atomic g (g.addBridge name l) := by
  unfold addBridge
  split
  · next hloop =>
    refine createWith_atomic (hg.type?_builtIn rfl) (fun other hother => ?_)
      (ParamCheck.bridge_loop l)
    obtain rfl := Option.some.inj hother
    exact hloop
  · exact .refuse g _

theorem Reachable.addBoolOp_atomic (hg : Reachable g) (name : String) (op : BoolOp) :
    Atomic g (g.addBoolOp name op) :=
  createWith_atomic (hg.type?_builtIn rfl) (fun _ h => nomatch h) (ParamCheck.boolOp_name op)

theorem Reachable.addConstant_atomic (hg : Reachable g) (name : String) (b : Bool) :
    Atomic g (g.addConstant name b) :=
  createWith_atomic (hg.type?_builtIn rfl) (fun _ h => nomatch h) (ParamCheck.constant_bool b)

/-! ### Commands -/

omit [Behavior β] in
theorem telling_answer {ε α : Type} (o : Outcome β ε α) (events : α → List Event) :
    (o.telling events).answer = o.answer := by
  unfold Outcome.telling
  split <;> rfl

omit [Behavior β] in
theorem Atomic.outcome_refused {ε α : Type} {call : Graph β × Except ε α} (hc : Atomic g call)
    {wrap : ε → Fault} {fault : Fault}
    (he : (Outcome.ofCall wrap call).answer = .error fault) :
    (Outcome.ofCall wrap call).graph = g := by
  obtain ⟨next, answer⟩ := call
  cases answer with
  | ok a => cases he
  | error e => exact hc.refused rfl

/-- An edit that is refused leaves the graph as it was. -/
theorem Reachable.edit_refused (hg : Reachable g) {α : Type} {c : Command β α}
    (hedit : c.isEdit = true) {fault : Fault} (hc : (c.run g).answer = .error fault) :
    (c.run g).graph = g := by
  cases c with
  | registerLoop config =>
    simp only [Command.run, telling_answer, telling_graph] at hc ⊢
    exact (g.registerLoop_atomic config).outcome_refused hc
  | compile =>
    simp only [Command.run, telling_answer, telling_graph] at hc ⊢
    exact g.compile_atomic.outcome_refused hc
  | registerType type => exact (g.registerType_atomic type).outcome_refused hc
  | create type name => exact (g.create_atomic type name).outcome_refused hc
  | addBridge name l => exact (hg.addBridge_atomic name l).outcome_refused hc
  | addBoolOp name op => exact (hg.addBoolOp_atomic name op).outcome_refused hc
  | addConstant name b => exact (hg.addConstant_atomic name b).outcome_refused hc
  | remove id => exact (g.remove_atomic id).outcome_refused hc
  | setParam id name value => exact (g.setParam_atomic id name value).outcome_refused hc
  | setDevice id device => exact (g.setDevice_atomic id device).outcome_refused hc
  | setBehavior id behavior => exact (g.setBehavior_atomic id behavior).outcome_refused hc
  | connect connection => exact (g.connect_atomic connection).outcome_refused hc
  | disconnect | setConfig | propagate => cases hc
  | advanceClock seconds =>
    simp only [Command.run] at hc ⊢
    split at hc
    · cases hc
    · rfl
  | execute => cases hedit

theorem run_disconnect_answer (g : Graph β) (c : Connection) :
    ((Command.disconnect c).run g).answer = .ok (g.disconnect c).2 := rfl

/-- A frame that has begun is not refused. -/
theorem runFrame_error {limit : Nat} {plan : Plan} {override : Option Float} {watch : Stopwatch}
    {e : ExecuteError}
    (hc : (g.runFrame limit plan override watch).answer = .error e) :
    e ≠ .notCompiled ∧ e ≠ .planOutdated := by
  unfold runFrame at hc
  dsimp only at hc
  split at hc
  · cases hc
  · obtain rfl := Except.error.inj hc
    exact ⟨nofun, nofun⟩
  · obtain rfl := Except.error.inj hc
    exact ⟨nofun, nofun⟩

theorem execute_refused {override : Option Float} {watch : Stopwatch} {limit : Nat}
    {e : ExecuteError}
    (hc : (g.execute override watch limit).answer = .error e)
    (he : e = .notCompiled ∨ e = .planOutdated) : (g.execute override watch limit).graph = g := by
  unfold execute at hc ⊢
  split
  · rfl
  · next plan hplan =>
    split
    · rfl
    · next hcurrent =>
      simp only [hplan, if_neg hcurrent] at hc
      obtain ⟨hcompiled, hfresh⟩ := runFrame_error hc
      exact absurd he (not_or.mpr ⟨hcompiled, hfresh⟩)

/-- A refused edit, a frame refused for want of a current plan, the removal of a connection that
does not exist and a loop connection made again leave a reachable graph exactly as it was. -/
theorem Reachable.refusals (hg : Reachable g) :
    (∀ {α : Type} (c : Command β α) (fault : Fault), c.isEdit = true →
      (c.run g).answer = .error fault → (c.run g).graph = g) ∧
    (∀ (delta : Option Float) (watch : Stopwatch) (e : ExecuteError),
      e = .notCompiled ∨ e = .planOutdated →
      ((Command.execute delta watch).run g).answer = .error (.execute e) →
      ((Command.execute delta watch).run g).graph = g) ∧
    (∀ c : Connection, ((Command.disconnect c).run g).answer = .ok false →
      ((Command.disconnect c).run g).graph = g) ∧
    ∀ c ∈ g.connections, c.carries? = some .loops →
      ((Command.connect c).run g).answer = .ok () ∧ ((Command.connect c).run g).graph = g := by
  refine ⟨fun c fault hedit hc => hg.edit_refused hedit hc, fun delta watch e he hc => ?_,
    fun c hc => ?_, fun c hmem hloops => ?_⟩
  · cases hanswer : (g.execute delta watch passLimit).answer with
    | ok report =>
      simp only [Command.run, hanswer] at hc
      cases hc
    | error found =>
      simp only [Command.run, hanswer] at hc
      obtain rfl := Fault.execute.inj (Except.error.inj hc)
      exact execute_refused hanswer he
  · obtain ⟨_, hdisconnect⟩ | ⟨_, hdisconnect⟩ := g.disconnect_cases c
    · simp only [Command.run, hdisconnect]
    · simp [Command.run, hdisconnect] at hc
  · obtain ⟨source, sink, _, hsource, hsink, _⟩ := hg.integral.fits c hmem
    have hconnect : g.connect c = (g, .ok ()) := by
      simp [connect, hloops, hsource, hsink, hmem]
    simp only [Command.run, hconnect]
    exact ⟨rfl, rfl⟩

/-- A second bridge under a name that is taken, a connection into an input that is fed, the loop
connection of the relay made again, one that it does not have, and a frame without a plan. -/
theorem relay_refusals :
    ((Command.addBridge "rate" ⟨0⟩).run relay).graph = relay ∧
    ((Command.connect ⟨⟨0⟩, .data 0, ⟨2⟩, .data 0⟩).run relay).graph = relay ∧
    ((Command.connect ⟨⟨3⟩, .loopOut, ⟨1⟩, .loopIn⟩).run relay).graph = relay ∧
    ((Command.disconnect ⟨⟨3⟩, .loopOut, ⟨2⟩, .loopIn⟩).run relay).graph = relay ∧
    ((Command.execute none).run chain).graph = chain := by
  have hname : (relay.addBridge "rate" ⟨0⟩).2 = .error (.duplicateNode "rate") := by decide +kernel
  have hfed : (relay.connect ⟨⟨0⟩, .data 0, ⟨2⟩, .data 0⟩).2 =
      .error (.alreadyConnected "blur" (.data 0)) := by decide +kernel
  have habsent : (relay.disconnect ⟨⟨3⟩, .loopOut, ⟨2⟩, .loopIn⟩).2 = false := by decide +kernel
  have hplan : chain.plan = none := by decide +kernel
  obtain ⟨hedit, _, hdisconnect, hconnect⟩ := relay_reachable.refusals
  obtain ⟨_, hframe, _⟩ := chain_reachable.refusals
  refine ⟨hedit _ (.graph (.duplicateNode "rate")) rfl ?_,
    hedit _ (.graph (.alreadyConnected "blur" (.data 0))) rfl ?_,
    (hconnect _ (by decide +kernel) rfl).2,
    hdisconnect _ ((run_disconnect_answer _ _).trans (congrArg Except.ok habsent)),
    hframe none .still .notCompiled (.inl rfl) ?_⟩
  · simp only [Command.run, Outcome.ofCall, hname]
    rfl
  · simp only [Command.run, Outcome.ofCall, hfed]
    rfl
  · simp only [Command.run, execute, hplan]
    rfl

end Graph

end FrameGraph
