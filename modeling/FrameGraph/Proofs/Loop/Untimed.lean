import FrameGraph.Proofs.Loop.History

/-! Measured times. A loop keeps how long the nodes took that it drove and does nothing with it: a
table that records times changes in them alone, and whatever else a table does it does as it would
with the times erased. Tables that are the same with the times erased go on alike, and are the same
where they keep the same times. To compare two runs is to compare what is seen of their tables, with
the times or without: both views go on as the tables do. -/

namespace FrameGraph

variable {τ : Type} [Seconds τ]

/-! ### Erased times -/

namespace Loop

def untimed (l : Loop τ) : Loop τ := { l with millis := Seconds.zero }

theorem eq_of_untimed {l m : Loop τ} (h : l.untimed = m.untimed) (hmillis : l.millis = m.millis) :
    l = m := by
  cases l
  cases m
  simp_all [untimed]

theorem settle_untimed (l : Loop τ) : l.untimed.settle = l.settle.untimed := by
  obtain ⟨config, triggered, delta, steps, frame, millis, debt, parked⟩ := l
  cases parked <;> rfl

variable [Add τ] [Sub τ] [LT τ] [LE τ] [DecidableLT τ] [DecidableLE τ]

omit [Add τ] [LE τ] [DecidableLE τ] in
theorem trigger_untimed (l : Loop τ) : l.untimed.trigger = l.trigger.untimed := by
  rw [trigger, trigger, apply_ite untimed]
  rfl

theorem advance_untimed (l : Loop τ) (frameTime : τ) (frame : Nat) :
    l.untimed.advance frameTime frame = (l.advance frameTime frame).untimed := by
  unfold advance
  simp only [apply_ite untimed, ← trigger_untimed]
  rfl

theorem catchUp_untimed (l : Loop τ) : l.untimed.catchUp = l.catchUp.untimed := by
  rw [catchUp, catchUp, apply_ite untimed]
  rfl

end Loop

namespace LoopTable

variable {t u next : LoopTable τ}

/-- The table with all measured times erased. -/
def untimed (t : LoopTable τ) : LoopTable τ := { t with loops := t.loops.map Loop.untimed }

theorem untimed_untimed (t : LoopTable τ) : t.untimed.untimed = t.untimed := by
  simp [untimed, Loop.untimed, Function.comp_def]

theorem length_untimed (t : LoopTable τ) : t.untimed.loops.length = t.loops.length :=
  List.length_map _

theorem get?_untimed (t : LoopTable τ) (id : LoopId) :
    t.untimed.get? id = (t.get? id).map Loop.untimed := List.getElem?_map

theorem isTriggered_untimed (t : LoopTable τ) (id : LoopId) :
    t.untimed.isTriggered id = t.isTriggered id := by
  rw [isTriggered, get?_untimed, Option.any_map]
  rfl

theorem isTriggered_congr {id : LoopId} (h : u.untimed.get? id = t.untimed.get? id) :
    u.isTriggered id = t.isTriggered id := by
  rw [← isTriggered_untimed, isTriggered, h, ← isTriggered, isTriggered_untimed]

theorem isTriggered_of_untimed (h : u.untimed = t.untimed) (id : LoopId) :
    u.isTriggered id = t.isTriggered id := isTriggered_congr (by rw [h])

/-- What is asked of a loop beside its measured time has the same answer with the times erased. -/
theorem map_get?_untimed {α : Type} {f : Loop τ → α} (hf : ∀ l : Loop τ, f l.untimed = f l)
    (t : LoopTable τ) (id : LoopId) : (t.untimed.get? id).map f = (t.get? id).map f := by
  rw [get?_untimed, Option.map_map]
  exact congrArg (fun f => (t.get? id).map f) (funext hf)

theorem map_get?_of_untimed {α : Type} {f : Loop τ → α} (hf : ∀ l : Loop τ, f l.untimed = f l)
    (h : u.untimed = t.untimed) (id : LoopId) : (u.get? id).map f = (t.get? id).map f := by
  rw [← map_get?_untimed hf, h, map_get?_untimed hf]

theorem settle_untimed (t : LoopTable τ) : t.untimed.settle = t.settle.untimed := by
  simp [settle, untimed, Function.comp_def, Loop.settle_untimed]

/-! ### Recorded times -/

theorem record_untimed (t : LoopTable τ) (id : LoopId) (millis : τ) :
    (t.record id millis).untimed = t.untimed := by
  have hloops : (t.record id millis).loops.map Loop.untimed = t.loops.map Loop.untimed := by
    refine List.ext_getElem? fun index => ?_
    rw [List.getElem?_map, List.getElem?_map, record, List.getElem?_modify]
    cases t.loops[index]? with
    | none => rfl
    | some l =>
      refine congrArg some ?_
      split <;> rfl
  simp only [untimed, hloops]
  rfl

/-- Records change nothing but measured times. -/
theorem recordAll_untimed (t : LoopTable τ) (millis? : LoopId → Option τ) :
    (t.recordAll millis?).untimed = t.untimed := by
  rw [recordAll]
  generalize List.range t.size = indices
  induction indices generalizing t with
  | nil => rfl
  | cons index indices ih =>
    rw [List.foldl_cons, ih]
    split
    · exact record_untimed t _ _
    · rfl

theorem length_recordAll (t : LoopTable τ) (millis? : LoopId → Option τ) :
    (t.recordAll millis?).loops.length = t.loops.length := by
  rw [← length_untimed, recordAll_untimed, length_untimed]

/-! ### The same times -/

omit [Seconds τ] in
/-- Two tables keep the same times for the loops in question. -/
def SameTimes (of : LoopId → Prop) (t u : LoopTable τ) : Prop :=
  ∀ l, of l → (u.get? l).map Loop.millis = (t.get? l).map Loop.millis

theorem get?_of_untimed {of : LoopId → Prop} (htimes : SameTimes of t u) {id : LoopId} (hid : of id)
    (h : u.untimed.get? id = t.untimed.get? id) : u.get? id = t.get? id := by
  rw [get?_untimed, get?_untimed] at h
  have hmillis := htimes id hid
  cases hu : u.get? id with
  | none =>
    rw [hu] at h
    exact (Option.map_eq_none_iff.mp h.symm).symm
  | some l =>
    rw [hu] at h hmillis
    obtain ⟨m, hm, hsame⟩ := Option.map_eq_some_iff.mp h.symm
    rw [hm] at hmillis ⊢
    exact congrArg some (Loop.eq_of_untimed hsame.symm (Option.some.inj hmillis))

/-- Tables that are the same with the times erased, and keep the same times, are the same. -/
theorem eq_of_untimed (h : u.untimed = t.untimed) (htimes : SameTimes (fun _ => True) t u) :
    u = t := by
  have hget (id : LoopId) : u.get? id = t.get? id := get?_of_untimed htimes trivial (by rw [h])
  have hloops : u.loops = t.loops := List.ext_getElem? fun index => hget ⟨index⟩
  have hframe : u.frame = t.frame := (congrArg frame h :)
  cases u
  cases t
  simp_all

/-! ### Going on -/

variable [Add τ] [Sub τ] [LT τ] [LE τ] [DecidableLT τ] [DecidableLE τ]

theorem update_untimed (t : LoopTable τ) (frameTime : τ) :
    t.untimed.update frameTime = (t.update frameTime).untimed := by
  simp [update, untimed, Function.comp_def, Loop.advance_untimed]

theorem catchUp?_untimed (t : LoopTable τ) : t.untimed.catchUp? = t.catchUp?.map untimed := by
  have hbehind : t.untimed.isBehind = t.isBehind := List.any_map
  unfold catchUp?
  rw [hbehind]
  split <;> simp [untimed, Function.comp_def, Loop.catchUp_untimed]

/-! ### Views -/

section Views

variable {timed : Bool}

omit [Add τ] [Sub τ] [LT τ] [LE τ] [DecidableLT τ] [DecidableLE τ]

/-- The table as it is seen with its measured times, or without. -/
def seen (t : LoopTable τ) (timed : Bool) : LoopTable τ :=
  match timed with
  | true => t
  | false => t.untimed

theorem seen_untimed (t : LoopTable τ) (timed : Bool) : (t.seen timed).untimed = t.untimed := by
  cases timed with
  | true => rfl
  | false => exact t.untimed_untimed

theorem isTriggered_seen (t : LoopTable τ) (timed : Bool) (id : LoopId) :
    (t.seen timed).isTriggered id = t.isTriggered id :=
  isTriggered_of_untimed (t.seen_untimed timed) id

theorem setFrame_seen (t : LoopTable τ) (timed : Bool) (frame : Nat) :
    (t.setFrame frame).seen timed = (t.seen timed).setFrame frame := by
  cases timed <;> rfl

theorem settle_seen (t : LoopTable τ) (timed : Bool) :
    t.settle.seen timed = (t.seen timed).settle := by
  cases timed with
  | true => rfl
  | false => exact t.settle_untimed.symm

/-- Where the tables keep the same times, unless these are not seen, the same is seen of both. -/
theorem seen_eq (h : u.untimed = t.untimed)
    (htimes : timed = true → SameTimes (fun _ => True) t u) : u.seen timed = t.seen timed := by
  cases timed with
  | true => exact eq_of_untimed h (htimes rfl)
  | false => exact h

end Views

theorem update_seen (t : LoopTable τ) (timed : Bool) (frameTime : τ) :
    (t.update frameTime).seen timed = (t.seen timed).update frameTime := by
  cases timed with
  | true => rfl
  | false => exact (t.update_untimed frameTime).symm

theorem catchUp?_seen (t : LoopTable τ) (timed : Bool) :
    (t.seen timed).catchUp? = t.catchUp?.map fun next => next.seen timed := by
  cases timed with
  | true => exact Option.map_id'.symm
  | false => exact t.catchUp?_untimed

theorem catchUp?_alike {timed : Bool} (h : u.seen timed = t.seen timed)
    (hnext : t.catchUp? = some next) :
    ∃ other, u.catchUp? = some other ∧ other.seen timed = next.seen timed := by
  have hother : u.catchUp?.map (fun next => next.seen timed) = some (next.seen timed) := by
    rw [← catchUp?_seen, h, catchUp?_seen, hnext, Option.map_some]
  exact Option.map_eq_some_iff.mp hother

theorem catchUp?_seen_eq_none {timed : Bool} :
    (t.seen timed).catchUp? = none ↔ t.catchUp? = none := by
  rw [catchUp?_seen, Option.map_eq_none_iff]

end LoopTable

end FrameGraph
