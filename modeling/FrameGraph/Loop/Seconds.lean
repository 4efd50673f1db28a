/-! Numbers that measure loop time. Loop timing needs a zero, the shortest frame, the
tolerance under which debt counts as a whole step, and a test for finiteness;
arithmetic and order are those of the number type. Doubles are what frames are run
with. Rationals run the same timing without rounding. -/

namespace FrameGraph

/-- The constants of loop timing in a number type. -/
class Seconds (τ : Type) where
  zero : τ
  /-- Frame time used in place of one that is not positive. -/
  minFrame : τ
  /-- Debt this close to a whole step counts as the whole step. -/
  tolerance : τ
  /-- Upper bound on the frame time of a loop that names none. -/
  defaultCap : τ
  isFinite : τ → Bool

namespace Seconds

instance : Seconds Float where
  zero := 0.0
  minFrame := 0.001
  tolerance := 1e-9
  defaultCap := 0.25
  isFinite := Float.isFinite

instance : Seconds Rat where
  zero := 0
  minFrame := 1 / 1000
  tolerance := 1 / 1000000000
  defaultCap := 1 / 4
  isFinite _ := true

variable {τ : Type} [LT τ] [DecidableLT τ]

def smaller (a b : τ) : τ := if b < a then b else a

def larger (a b : τ) : τ := if a < b then b else a

end Seconds

end FrameGraph
