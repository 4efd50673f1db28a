import Mathlib.Algebra.GroupWithZero.Nat
import FrameGraph.Clock

/-! The laps of a timer. A timer in use is followed over any calls on it and on the clock
under it, together with what its laps gave since it was started. Its laps cover what it
showed at the last of them, and they make up exactly that as long as the clock has not
moved past the end of its word; a clock that does begins again at zero, and then the
laps before and after count time that the timer no longer shows. -/

namespace FrameGraph

namespace Clock

/-- Moving adds to the reading, modulo the word. -/
theorem toNat_advance (clock : Clock) (nanos : Nat) :
    (clock.advance nanos).now.toNat = (clock.now.toNat + min nanos maxWord) % (maxWord + 1) := by
  simp [advance, UInt64.toNat_add, maxWord]

theorem toNat_le (clock : Clock) : clock.now.toNat ≤ maxWord := by
  have := clock.now.toNat_lt
  unfold maxWord
  omega

end Clock

namespace Timer

inductive Call
  | advance (nanos : Nat)
  | advanceSeconds (x : Float)
  | lap
  | elapsed
  | reset

/-- The nanoseconds by which a call moves the clock. A time that does not fit a clock moves it by
none. -/
def Call.nanos : Call → Nat
  | advance nanos => min nanos maxWord
  | advanceSeconds x => if 0 < x then ((nanosOfSeconds? x).map (min · maxWord)).getD 0 else 0
  | lap | elapsed | reset => 0

structure Session where
  timer : Timer
  /-- What the laps gave since the timer was started. -/
  laps : List Nat := []
  /-- What the timer showed at the last of them. -/
  shown : Nat := 0
  /-- By how much the clock was moved since the timer was started. -/
  moved : Nat := 0

namespace Session

def ofClock (clock : Clock) : Session := { timer := .ofClock clock }

def reading (s : Session) : Nat := s.timer.clock.now.toNat

def call (s : Session) (c : Call) : Session :=
  match c with
  | .advance nanos =>
    { s with timer := s.timer.onClock fun clock => clock.advance nanos, moved := s.moved + c.nanos }
  | .advanceSeconds x =>
    { s with
      timer := s.timer.onClock fun clock => (clock.advanceSeconds? x).getD clock
      moved := s.moved + c.nanos }
  | .lap =>
    let (nanos, timer) := s.timer.lap
    { s with timer, laps := s.laps ++ [nanos], shown := timer.elapsed }
  | .elapsed => s
  | .reset => { timer := s.timer.reset }

def run (clock : Clock) (calls : List Call) : Session := calls.foldl call (ofClock clock)

/-- The clock has stayed within its word since the timer was started. -/
def Fits (s : Session) : Prop := s.timer.start.toNat + s.moved ≤ maxWord

/-- What the laps of a session owe to its clock. -/
structure Sound (s : Session) : Prop where
  shown_eq : s.shown = s.timer.last.toNat - s.timer.start.toNat
  shown_le : s.shown ≤ s.laps.sum
  reading_eq : s.Fits → s.reading = s.timer.start.toNat + s.moved
  last_le : s.Fits → s.timer.last.toNat ≤ s.reading
  sum_eq : s.Fits → s.timer.start.toNat + s.laps.sum = s.timer.last.toNat

variable {s : Session} {c : Call}

/-- Every call moves the clock as far as `nanos` says. -/
theorem reading_call (s : Session) (c : Call) :
    (s.call c).reading = (s.reading + c.nanos) % (maxWord + 1) := by
  have hsame : s.reading = (s.reading + 0) % (maxWord + 1) := by
    have hle : s.reading ≤ maxWord := s.timer.clock.toNat_le
    rw [Nat.add_zero, Nat.mod_eq_of_lt (Nat.lt_succ_of_le hle)]
  cases c with
  | advance nanos => exact s.timer.clock.toNat_advance nanos
  | advanceSeconds x =>
    by_cases hx : 0 < x
    · cases hn : nanosOfSeconds? x with
      | none =>
        simpa [call, Call.nanos, onClock, reading, Clock.advanceSeconds?, hx, hn] using hsame
      | some nanos =>
        simpa [call, Call.nanos, onClock, reading, Clock.advanceSeconds?, hx, hn] using
          s.timer.clock.toNat_advance nanos
    · simpa [call, Call.nanos, onClock, reading, Clock.advanceSeconds?, hx] using hsame
  | lap | elapsed | reset => exact hsame

/-- A call moves the clock back exactly when it moves it past the end of its word. -/
theorem reading_call_lt_iff :
    (s.call c).reading < s.reading ↔ maxWord < s.reading + c.nanos := by
  have hreading : s.reading ≤ maxWord := s.timer.clock.toNat_le
  have hnanos : c.nanos ≤ maxWord := by
    cases c with
    | advance nanos => exact Nat.min_le_right _ _
    | advanceSeconds x =>
      simp only [Call.nanos]
      split
      · cases nanosOfSeconds? x with
        | none => exact Nat.zero_le _
        | some nanos => exact Nat.min_le_right _ _
      · exact Nat.zero_le _
    | lap | elapsed | reset => exact Nat.zero_le _
  rw [reading_call]
  unfold maxWord at *
  omega

theorem Sound.ofClock (clock : Clock) : (ofClock clock).Sound := by
  constructor <;> simp [Session.ofClock, Timer.ofClock, reading]

theorem Sound.move (h : s.Sound) {t : Session} (hstart : t.timer.start = s.timer.start)
    (hlast : t.timer.last = s.timer.last) (hlaps : t.laps = s.laps) (hshown : t.shown = s.shown)
    (hmoved : t.moved = s.moved + c.nanos)
    (hreading : t.reading = (s.reading + c.nanos) % (maxWord + 1)) : t.Sound := by
  obtain ⟨hshow, hle, hread, hlastle, hsum⟩ := h
  simp only [Fits] at hread hlastle hsum
  constructor <;> simp only [Fits, hstart, hlast, hlaps, hshown, hmoved, hreading]
  case shown_eq => exact hshow
  case shown_le => exact hle
  case reading_eq | last_le =>
    intro hfits
    have hread := hread (by omega)
    have hlastle := hlastle (by omega)
    rw [Nat.mod_eq_of_lt (by omega)]
    omega
  case sum_eq => exact fun hfits => hsum (by omega)

theorem Sound.call (h : s.Sound) (c : Call) : (s.call c).Sound := by
  cases c with
  | advance nanos => exact h.move rfl rfl rfl rfl rfl (s.reading_call _)
  | advanceSeconds x => exact h.move rfl rfl rfl rfl rfl (s.reading_call _)
  | lap =>
    obtain ⟨hshow, hle, hread, hlastle, hsum⟩ := h
    constructor
    case shown_eq => rfl
    case shown_le =>
      change s.reading - s.timer.start.toNat ≤
        (s.laps ++ [s.reading - s.timer.last.toNat]).sum
      rw [List.sum_append, List.sum_singleton]
      omega
    case reading_eq => exact hread
    case last_le => exact fun _ => Nat.le_refl _
    case sum_eq =>
      intro hfits
      have := hlastle hfits
      have := hsum hfits
      change s.timer.start.toNat + (s.laps ++ [s.reading - s.timer.last.toNat]).sum = s.reading
      rw [List.sum_append, List.sum_singleton]
      omega
  | elapsed => exact h
  | reset => exact .ofClock s.timer.clock

theorem sound_run (clock : Clock) (calls : List Call) : (run clock calls).Sound := by
  unfold run
  generalize hs : ofClock clock = s
  have h : s.Sound := hs ▸ .ofClock clock
  clear hs
  induction calls generalizing s with
  | nil => exact h
  | cons c calls ih => exact ih _ (h.call c)

/-- Over any calls, the clock under a timer goes back with exactly those that move it past the end
of its word. The laps since the timer was started are never less than what it showed at the last of
them. As long as its clock stays within the word they are exactly that, and the reading is the one
at the start and all by which the clock was moved since. -/
theorem laps_account (clock : Clock) (calls : List Call) :
    (∀ c : Call, ((run clock calls).call c).reading < (run clock calls).reading ↔
      maxWord < (run clock calls).reading + c.nanos) ∧
    (run clock calls).shown ≤ (run clock calls).laps.sum ∧
    ((run clock calls).timer.start.toNat + (run clock calls).moved ≤ maxWord →
      (run clock calls).laps.sum = (run clock calls).shown ∧
      (run clock calls).reading =
        (run clock calls).timer.start.toNat + (run clock calls).moved) := by
  have hsound := sound_run clock calls
  refine ⟨fun c => reading_call_lt_iff, hsound.shown_le,
    fun hfits => ⟨?_, hsound.reading_eq hfits⟩⟩
  have hshow := hsound.shown_eq
  have hsum := hsound.sum_eq hfits
  omega

/-- Two laps, the second at the last reading of the word, after the timer was started again. -/
def brink : List Call := [.advance 5, .lap, .reset, .advance 7, .lap, .advance (maxWord - 12), .lap]

theorem brink_laps : (run {} brink).timer.start.toNat + (run {} brink).moved ≤ maxWord ∧
    (run {} brink).laps = [7, maxWord - 12] ∧ (run {} brink).laps.sum = (run {} brink).shown := by
  have hfits : (run {} brink).timer.start.toNat + (run {} brink).moved ≤ maxWord := by
    decide +kernel
  exact ⟨hfits, by decide +kernel, ((laps_account {} brink).2.2 hfits).1⟩

/-- One nanosecond after the last reading of the word, the clock reads zero. The laps hold the whole
word and the timer shows nothing. -/
theorem overrun_laps :
    (run {} [.advance maxWord, .lap]).reading = maxWord ∧
    (run {} [.advance maxWord, .lap, .advance 1]).reading = 0 ∧
    (run {} [.advance maxWord, .lap, .advance 1, .lap]).laps.sum = maxWord ∧
    (run {} [.advance maxWord, .lap, .advance 1, .lap]).shown = 0 := by
  decide +kernel

end Session

end Timer

end FrameGraph
