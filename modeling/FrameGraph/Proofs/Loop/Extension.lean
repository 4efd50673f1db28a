import FrameGraph.Proofs.Loop.Untimed

/-! A table with one loop more. The further loop comes last, so that the others keep their numbers,
and whatever the table does the others do as they would without it, except that they may have
to wait: where only the further loop is behind, it steps and the others stand idle. Standing
idle once or many times is the same, and is over when the frame settles. All this holds of what is
seen of the tables with measured times, and of what is seen without. -/

namespace FrameGraph

variable {τ : Type}

namespace Loop

theorem settle_idle (l : Loop τ) : l.idle.settle = l.settle := by
  obtain ⟨config, triggered, delta, steps, frame, millis, debt, parked⟩ := l
  cases parked <;> rfl

end Loop

namespace LoopTable

def idled (t : LoopTable τ) : LoopTable τ := { t with loops := t.loops.map Loop.idle }

/-- A table has one loop more, with this number. -/
structure Extends (id : LoopId) (t u : LoopTable τ) : Prop where
  frame : u.frame = t.frame
  id_eq : id = ⟨t.loops.length⟩
  loops : ∃ l, u.loops = t.loops ++ [l]

variable {t u next : LoopTable τ} {id l : LoopId}

theorem settle_idled (t : LoopTable τ) : t.idled.settle = t.settle := by
  simp [idled, settle, Function.comp_def, Loop.settle_idle]

theorem isTriggered_idled (t : LoopTable τ) (l : LoopId) : t.idled.isTriggered l = false := by
  simp [isTriggered, get?, idled, Option.any_map, Loop.idle]

namespace Extends

/-- The other loops are as they are. -/
theorem get? (h : Extends id t u) (hl : l ≠ id) : u.get? l = t.get? l := by
  obtain ⟨added, hloops⟩ := h.loops
  have hindex : l.index ≠ t.loops.length := fun heq => hl (by rw [h.id_eq, ← heq])
  rw [LoopTable.get?, LoopTable.get?, hloops, List.getElem?_append]
  split
  · rfl
  · next hlt =>
    rw [List.getElem?_eq_none (by simp; omega), List.getElem?_eq_none (by omega)]

theorem get?_of_not_mem (h : Extends id t u) {subscribed : List LoopId} (hid : id ∉ subscribed) :
    ∀ l ∈ subscribed, u.get? l = t.get? l := fun _ hl => h.get? fun heq => hid (heq ▸ hl)

theorem isTriggered (h : Extends id t u) (hl : l ≠ id) : u.isTriggered l = t.isTriggered l := by
  rw [LoopTable.isTriggered, LoopTable.isTriggered, h.get? hl]

theorem map (h : Extends id t u) (f : Loop τ → Loop τ) :
    Extends id { t with loops := t.loops.map f } { u with loops := u.loops.map f } := by
  obtain ⟨added, hloops⟩ := h.loops
  exact ⟨h.frame, by rw [List.length_map, h.id_eq], f added, by rw [hloops, List.map_append]; rfl⟩

theorem settle (h : Extends id t u) : Extends id t.settle u.settle := h.map Loop.settle

theorem setFrame (h : Extends id t u) (frame : Nat) :
    Extends id (t.setFrame frame) (u.setFrame frame) := ⟨rfl, h.id_eq, h.loops⟩

end Extends

variable [Seconds τ] [Add τ] [Sub τ] [LT τ] [LE τ] [DecidableLT τ] [DecidableLE τ]

omit [Add τ] [Sub τ] in
theorem register_extends {config : LoopConfig τ} (h : t.register config = .ok (u, id)) :
    Extends id t u := by
  obtain ⟨_, rfl, rfl⟩ := register_eq_ok h
  exact ⟨rfl, rfl, _, rfl⟩

theorem catchUp?_eq_none : t.catchUp? = none ↔ ∀ l ∈ t.loops, l.isBehind = false := by
  simp [catchUp?, isBehind]

theorem idled_catchUp? (h : t.catchUp? = none) : t.idled.catchUp? = none := by
  rw [catchUp?_eq_none] at h ⊢
  intro l hl
  obtain ⟨m, hm, rfl⟩ := List.mem_map.mp hl
  exact h m hm

namespace Extends

theorem update (h : Extends id t u) (frameTime : τ) :
    Extends id (t.update frameTime) (u.update frameTime) := by
  have hmap := h.map fun l => l.advance frameTime t.frame
  rw [h.frame] at hmap
  rw [LoopTable.update, LoopTable.update, h.frame]
  exact hmap

/-- Where some other loop is behind both tables catch up. -/
theorem catchUp (h : Extends id t u) (hnext : t.catchUp? = some next) :
    ∃ next', u.catchUp? = some next' ∧ Extends id next next' := by
  obtain ⟨hbehind, rfl⟩ := catchUp?_eq_some hnext
  obtain ⟨added, hloops⟩ := h.loops
  have hbehind' : u.isBehind = true := by
    rw [isBehind, hloops, List.any_append, ← isBehind, hbehind, Bool.true_or]
  exact ⟨_, if_pos hbehind', h.map Loop.catchUp⟩

/-- Where only the further loop is behind the others stand idle. -/
theorem idle (h : Extends id t u) (hsettled : t.catchUp? = none) (hnext : u.catchUp? = some next) :
    Extends id t.idled next := by
  obtain ⟨_, rfl⟩ := catchUp?_eq_some hnext
  have hidle : t.loops.map Loop.catchUp = t.loops.map Loop.idle :=
    List.map_congr_left fun l hl => by
      rw [Loop.catchUp, catchUp?_eq_none.mp hsettled l hl]
      rfl
  have hmap := h.map Loop.catchUp
  rw [hidle] at hmap
  exact hmap

end Extends

/-! ### Views -/

section Views

variable {timed : Bool}

omit [Add τ] [Sub τ] [LT τ] [LE τ] [DecidableLT τ] [DecidableLE τ]

theorem idled_seen (t : LoopTable τ) (timed : Bool) :
    t.idled.seen timed = (t.seen timed).idled := by
  cases timed with
  | true => rfl
  | false => simp [idled, seen, untimed, Function.comp_def, Loop.idle, Loop.untimed]

theorem Extends.seen (h : Extends id t u) (timed : Bool) :
    Extends id (t.seen timed) (u.seen timed) := by
  cases timed with
  | true => exact h
  | false => exact h.map Loop.untimed

theorem Extends.untimed (h : Extends id (t.seen timed) (u.seen timed)) :
    Extends id t.untimed u.untimed := by
  have hmap : Extends id (t.seen timed).untimed (u.seen timed).untimed := h.seen false
  rwa [seen_untimed, seen_untimed] at hmap

theorem Extends.isTriggered_seen (h : Extends id (t.seen timed) (u.seen timed)) (hl : l ≠ id) :
    u.isTriggered l = t.isTriggered l := by
  rw [← u.isTriggered_seen timed, h.isTriggered hl, LoopTable.isTriggered_seen]

/-- Where the times are erased, the further loop can be added to the table as it is. -/
theorem Extends.exists_timed (h : Extends id t.untimed u.untimed) :
    ∃ v, Extends id t v ∧ v.untimed = u.untimed ∧ v.get? id = u.get? id := by
  obtain ⟨erased, hloops⟩ := h.loops
  obtain ⟨others, last, hu, hothers, hlast⟩ := List.map_eq_append_iff.mp hloops
  obtain ⟨added, rfl, rfl⟩ := List.map_eq_singleton_iff.mp hlast
  have hlength : others.length = t.loops.length := by
    simpa [LoopTable.untimed] using congrArg List.length hothers
  have hid : id = ⟨t.loops.length⟩ := by rw [h.id_eq, length_untimed]
  refine ⟨{ t with loops := t.loops ++ [added] }, ⟨rfl, hid, added, rfl⟩, ?_, ?_⟩
  · have hframe : t.frame = u.frame := h.frame.symm
    simp only [LoopTable.untimed] at hothers ⊢
    rw [hu, List.map_append, List.map_append, hothers, hframe]
  · rw [LoopTable.get?, LoopTable.get?, hu, hid, List.getElem?_concat_length, ← hlength,
      List.getElem?_concat_length]

/-- Where the other loops keep the same times, unless these are not seen, the same is seen of them
in both tables. -/
theorem Extends.of_untimed (h : Extends id t.untimed u.untimed)
    (htimes : timed = true → SameTimes (· ≠ id) t u) :
    Extends id (t.seen timed) (u.seen timed) := by
  cases timed with
  | false => exact h
  | true =>
    obtain ⟨v, hext, hsame, hadded⟩ := h.exists_timed
    have heq : u = v := eq_of_untimed hsame.symm fun other _ => by
      by_cases hother : other = id
      · rw [hother, hadded]
      · rw [hext.get? hother]
        exact htimes rfl other hother
    exact heq ▸ hext

end Views

namespace Extends

variable {timed : Bool}

theorem catchUp_seen (h : Extends id (t.seen timed) (u.seen timed))
    (hnext : t.catchUp? = some next) :
    ∃ next', u.catchUp? = some next' ∧ Extends id (next.seen timed) (next'.seen timed) := by
  have hseen : (t.seen timed).catchUp? = some (next.seen timed) := by
    rw [catchUp?_seen, hnext, Option.map_some]
  obtain ⟨_, hcatch, hext⟩ := h.catchUp hseen
  rw [catchUp?_seen] at hcatch
  obtain ⟨next', hnext', rfl⟩ := Option.map_eq_some_iff.mp hcatch
  exact ⟨next', hnext', hext⟩

theorem idle_seen (h : Extends id (t.seen timed) (u.seen timed)) (hsettled : t.catchUp? = none)
    (hnext : u.catchUp? = some next) : Extends id (t.idled.seen timed) (next.seen timed) := by
  rw [idled_seen]
  exact h.idle (catchUp?_seen_eq_none.mpr hsettled) (by rw [catchUp?_seen, hnext, Option.map_some])

end Extends

end LoopTable

end FrameGraph
