import FrameGraph.Decimal.Layout

/-! Frame timing. A `Clock` moves only when it is told to and counts whole
nanoseconds in a 64-bit word that wraps; a `Timer` on a clock measures the time
between two of its readings and the time since it was started. Both measure in
nanoseconds, and `seconds` turns a whole number of them into a double. Differences
of readings stop at zero. -/

namespace FrameGraph

/-- Nanoseconds in a second. -/
def nanosPerSecond : Nat := 1000000000

/-- The greatest value of a 64-bit word. -/
def maxWord : Nat := 18446744073709551615

/-- Whole seconds plus the remaining nanoseconds, each as a double. -/
def seconds (nanos : Nat) : Float :=
  (nanos / nanosPerSecond).toFloat + (nanos % nanosPerSecond).toFloat / nanosPerSecond.toFloat

/-- Whole seconds and nanoseconds as nanoseconds. There is no answer when the whole seconds of both
do not fit a word. -/
def nanosOf? (wholeSeconds nanos : Nat) : Option Nat :=
  if wholeSeconds + nanos / nanosPerSecond ≤ maxWord then
    some (wholeSeconds * nanosPerSecond + nanos)
  else none

/-- A positive number of seconds in nanoseconds, rounded to nearest with halves to even. There is
no answer for a time of `2 ^ 64` seconds or more. -/
def nanosOfSeconds? (x : Float) : Option Nat :=
  match Decimal.Reading.ofFloat x with
  | .finite false mantissa power =>
    let exact := Decimal.Ratio.scaled mantissa 2 power
    if exact.num < (maxWord + 1) * exact.den then
      some (Decimal.Ratio.roundEven ⟨exact.num * nanosPerSecond, exact.den⟩)
    else none
  | _ => none

/-- A clock that is moved by hand. -/
structure Clock where
  now : UInt64 := 0
  deriving DecidableEq, Repr

namespace Clock

/-- Move forward by `nanos`, of which at most `maxWord` count. The reading wraps. -/
def advance (clock : Clock) (nanos : Nat) : Clock := ⟨clock.now + (min nanos maxWord).toUInt64⟩

/-- Move forward by a number of seconds; one that is not positive counts as none. There is no answer
when the time does not fit a word of seconds. -/
def advanceSeconds? (clock : Clock) (x : Float) : Option Clock :=
  if 0 < x then (nanosOfSeconds? x).map clock.advance else some clock

end Clock

/-- A stopwatch on a clock: the readings at its start and at the last `lap`. -/
structure Timer where
  clock : Clock
  start : UInt64
  last : UInt64
  deriving DecidableEq, Repr

namespace Timer

def ofClock (clock : Clock) : Timer := ⟨clock, clock.now, clock.now⟩

/-- Nanoseconds since the last lap, and the timer with a new lap begun. -/
def lap (timer : Timer) : Nat × Timer :=
  (timer.clock.now.toNat - timer.last.toNat, { timer with last := timer.clock.now })

/-- Nanoseconds since the start. -/
def elapsed (timer : Timer) : Nat := timer.clock.now.toNat - timer.start.toNat

/-- Start again from the present reading. -/
def reset (timer : Timer) : Timer :=
  { timer with start := timer.clock.now, last := timer.clock.now }

/-- Let the clock under the timer move. -/
def onClock (timer : Timer) (move : Clock → Clock) : Timer :=
  { timer with clock := move timer.clock }

def debugText (timer : Timer) : String :=
  "Timer \x7b elapsed: " ++ Decimal.render .precise (seconds timer.elapsed) ++ ", .. \x7d"

end Timer

end FrameGraph
