import FrameGraph.Loop.Table

/-! Histories of a table of loops. Everything that its owner can do to a table is a call,
and a history is the list of calls made on an empty table. A call that is refused or finds
nothing to do leaves the table as it was. Loops are never removed and keep their numbers
and configurations, so a history acts on every loop by itself: `Op.onLoop` is all that a
call does to one of them. -/

namespace FrameGraph

variable {τ : Type} [Seconds τ] [LT τ] [LE τ] [DecidableLT τ] [DecidableLE τ]

namespace LoopTable

inductive Op (τ : Type)
  | register (config : LoopConfig τ)
  | setFrame (frame : Nat)
  | update (frameTime : τ)
  /-- One more step for every loop that is behind. -/
  | catchUp
  | settle
  | record (id : LoopId) (millis : τ)

omit [Seconds τ] [LT τ] [LE τ] [DecidableLT τ] [DecidableLE τ] in
def Op.frameTime? : Op τ → Option τ
  | update frameTime => some frameTime
  | _ => none

theorem enroll_cases (t : LoopTable τ) (config : LoopConfig τ) :
    (∃ e, t.enroll config = (t, .error e)) ∨
      config.check = .ok () ∧ t.enroll config =
        ({ t with loops := t.loops ++ [Loop.ofConfig config] }, .ok ⟨t.loops.length⟩) := by
  unfold enroll
  split
  · exact .inl ⟨_, rfl⟩
  · cases config.check with
    | error e => exact .inl ⟨e, rfl⟩
    | ok _ => exact .inr ⟨rfl, rfl⟩

theorem register_eq_ok {t next : LoopTable τ} {config : LoopConfig τ} {id : LoopId}
    (h : t.register config = .ok (next, id)) :
    config.check = .ok () ∧ id = ⟨t.loops.length⟩ ∧
      next = { t with loops := t.loops ++ [Loop.ofConfig config] } := by
  unfold register at h
  obtain ⟨e, henroll⟩ | ⟨hcheck, henroll⟩ := t.enroll_cases config
  · rw [henroll] at h
    cases h
  · rw [henroll] at h
    obtain ⟨rfl, rfl⟩ := Prod.mk.inj (Except.ok.inj h)
    exact ⟨hcheck, rfl, rfl⟩

theorem register_of_free {t : LoopTable τ} {config : LoopConfig τ}
    (free : t.find? config.name = none) (hcheck : config.check = .ok ()) :
    t.register config =
      .ok ({ t with loops := t.loops ++ [Loop.ofConfig config] }, ⟨t.loops.length⟩) := by
  simp [register, enroll, free, hcheck, Except.map]

theorem register_get? {t next : LoopTable τ} {config : LoopConfig τ} {id : LoopId}
    (h : t.register config = .ok (next, id)) : next.get? id = some (Loop.ofConfig config) := by
  obtain ⟨_, rfl, rfl⟩ := register_eq_ok h
  exact List.getElem?_concat_length

end LoopTable

variable [Add τ] [Sub τ]

/-! ### Configurations -/

namespace Loop

theorem advance_config (l : Loop τ) (frameTime : τ) (frame : Nat) :
    (l.advance frameTime frame).config = l.config := by
  unfold advance trigger
  dsimp only
  split
  · rfl
  · split
    · split <;> rfl
    · rfl

theorem catchUp_config (l : Loop τ) : l.catchUp.config = l.config := by
  unfold catchUp
  split <;> rfl

omit [Seconds τ] [LT τ] [LE τ] [DecidableLT τ] [DecidableLE τ] [Add τ] [Sub τ] in
theorem settle_config (l : Loop τ) : l.settle.config = l.config := by
  unfold settle
  split <;> rfl

end Loop

/-! ### Calls -/

namespace LoopTable

def apply (t : LoopTable τ) : Op τ → LoopTable τ
  | .register config =>
    match t.register config with
    | .ok (next, _) => next
    | .error _ => t
  | .setFrame frame => t.setFrame frame
  | .update frameTime => t.update frameTime
  | .catchUp => t.catchUp?.getD t
  | .settle => t.settle
  | .record id millis => t.record id millis

def run (t : LoopTable τ) (ops : List (Op τ)) : LoopTable τ := ops.foldl apply t

/-- A table that can step steps all its loops together. -/
theorem catchUp?_eq_some {t next : LoopTable τ} (h : t.catchUp? = some next) :
    t.isBehind = true ∧ { t with loops := t.loops.map Loop.catchUp } = next := by
  unfold catchUp? at h
  split at h
  · next hbehind => exact ⟨hbehind, Option.some.inj h⟩
  · cases h

theorem length_catchUp? {t next : LoopTable τ} (h : t.catchUp? = some next) :
    next.loops.length = t.loops.length := by
  obtain ⟨_, rfl⟩ := catchUp?_eq_some h
  exact List.length_map _

theorem drain_of_none {t : LoopTable τ} (h : t.catchUp? = none) (limit : Nat) :
    t.drain limit = (0, t) := by
  cases limit <;> simp [drain, h]

theorem drain_of_some {t next : LoopTable τ} (h : t.catchUp? = some next) (limit : Nat) :
    t.drain (limit + 1) = ((next.drain limit).1 + 1, (next.drain limit).2) := by
  simp [drain, h]

theorem update_get? (t : LoopTable τ) (frameTime : τ) (id : LoopId) :
    (t.update frameTime).get? id = (t.get? id).map fun l => l.advance frameTime t.frame :=
  List.getElem?_map

theorem catchUp?_get? {t next : LoopTable τ} (h : t.catchUp? = some next) (id : LoopId) :
    next.get? id = (t.get? id).map Loop.catchUp := by
  obtain ⟨_, rfl⟩ := catchUp?_eq_some h
  exact List.getElem?_map

omit [Seconds τ] [LT τ] [LE τ] [DecidableLT τ] [DecidableLE τ] [Add τ] [Sub τ] in
theorem settle_get? (t : LoopTable τ) (id : LoopId) :
    t.settle.get? id = (t.get? id).map Loop.settle := List.getElem?_map

/-- What a call on the table does to the loop of a number. -/
def Op.onLoop (t : LoopTable τ) (id : LoopId) (l : Loop τ) : Op τ → Loop τ
  | register _ | setFrame _ => l
  | update frameTime => l.advance frameTime t.frame
  | catchUp => if t.isBehind then l.catchUp else l
  | settle => l.settle
  | record other millis => if other = id then { l with millis } else l

theorem onLoop_config (t : LoopTable τ) (id : LoopId) (l : Loop τ) (op : Op τ) :
    (op.onLoop t id l).config = l.config := by
  cases op with
  | register config | setFrame frame => rfl
  | update frameTime => exact l.advance_config frameTime t.frame
  | catchUp =>
    simp only [Op.onLoop]
    split
    · exact l.catchUp_config
    · rfl
  | settle => exact l.settle_config
  | record other millis =>
    simp only [Op.onLoop]
    split <;> rfl

variable {t : LoopTable τ} {id : LoopId} {l : Loop τ}

/-- A call that registers nothing does to the loop of each number what it does to it alone. -/
theorem apply_get?_map {op : Op τ} (hop : ∀ config, op ≠ .register config) (id : LoopId) :
    (t.apply op).get? id = (t.get? id).map fun l => op.onLoop t id l := by
  cases op with
  | register config => exact absurd rfl (hop config)
  | setFrame frame => exact Option.map_id_apply.symm
  | update frameTime => exact t.update_get? frameTime id
  | catchUp =>
    simp only [apply, Op.onLoop]
    cases hc : t.catchUp? with
    | none =>
      have hbehind : t.isBehind = false := by simpa [catchUp?] using hc
      simp [hbehind]
    | some next => simp [catchUp?_get? hc, (catchUp?_eq_some hc).1]
  | settle => exact t.settle_get? id
  | record other millis =>
    have hindex : other.index = id.index ↔ other = id := by
      cases other
      cases id
      simp
    simp only [apply, record, get?, Op.onLoop, List.getElem?_modify, hindex]
    cases t.loops[id.index]? with
    | none => rfl
    | some l => by_cases hid : other = id <;> simp [hid]

/-- A loop that is registered keeps its number and sees each call as one on itself. -/
theorem apply_get? (h : t.get? id = some l) (op : Op τ) :
    (t.apply op).get? id = some (op.onLoop t id l) := by
  cases op with
  | register config =>
    have hloop : t.loops[id.index]? = some l := h
    simp only [apply]
    split
    · next next other hreg =>
      obtain ⟨_, _, rfl⟩ := register_eq_ok hreg
      exact (List.getElem?_append_left (List.getElem?_eq_some_iff.mp hloop).1).trans hloop
    · exact h
  | _ =>
    refine (apply_get?_map ?_ id).trans ?_
    · exact fun _ heq => nomatch heq
    · rw [h, Option.map_some]

/-- A number that was free belongs to a loop that the call registered. -/
theorem apply_get?_new {op : Op τ} (hfree : t.get? id = none) (h : (t.apply op).get? id = some l) :
    ∃ config : LoopConfig τ, config.check = .ok () ∧ l = Loop.ofConfig config := by
  cases op with
  | register config =>
    have hindex : t.loops[id.index]? = none := hfree
    simp only [apply] at h
    split at h
    · next next other hreg =>
      obtain ⟨hcheck, _, rfl⟩ := register_eq_ok hreg
      have hlast : (t.loops ++ [Loop.ofConfig config])[id.index]? = some l := h
      rw [List.getElem?_append_right (List.getElem?_eq_none_iff.mp hindex)] at hlast
      exact ⟨config, hcheck, List.mem_singleton.mp (List.mem_of_getElem? hlast)⟩
    · exact nomatch hfree.symm.trans h
  | _ =>
    have hmap := h.symm.trans (apply_get?_map ?_ id)
    · rw [hfree] at hmap
      cases hmap
    · exact fun _ heq => nomatch heq

/-- What registered loops have and calls keep, all loops of a history have. -/
theorem forall_mem_run {P : Loop τ → Prop}
    (hnew : ∀ config : LoopConfig τ, config.check = .ok () → P (Loop.ofConfig config))
    (hkeep : ∀ (t : LoopTable τ) (id : LoopId) (op : Op τ) (l : Loop τ), P l →
      P (op.onLoop t id l)) (ops : List (Op τ)) (ht : ∀ l ∈ t.loops, P l) :
    ∀ l ∈ (t.run ops).loops, P l := by
  induction ops generalizing t with
  | nil => exact ht
  | cons op ops ih =>
    refine ih fun l hl => ?_
    obtain ⟨i, hi⟩ := List.mem_iff_getElem?.mp hl
    have hget : (t.apply op).get? ⟨i⟩ = some l := hi
    cases hbefore : t.get? ⟨i⟩ with
    | none =>
      obtain ⟨config, hcheck, rfl⟩ := apply_get?_new hbefore hget
      exact hnew config hcheck
    | some before =>
      obtain rfl := Option.some.inj ((apply_get? hbefore op).symm.trans hget)
      exact hkeep t ⟨i⟩ op before (ht before (List.mem_of_getElem? hbefore))

end LoopTable

end FrameGraph
