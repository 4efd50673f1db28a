import FrameGraph.Decimal.Reading

/-! The shortest decimal that reads back as a given double. A finite double
`m * 2 ^ q` owns the interval of reals that round to it, ends included exactly
when `m` is even. For one digit, two digits and so on up to seventeen, the two
neighbours of the double on that decimal grid are tested against the interval;
the first grid with a hit decides how many digits are written, the nearer hit
decides which, and an exact tie goes up. All comparisons are of naturals. -/

namespace FrameGraph.Decimal

/-- A decimal `coefficient * 10 ^ exponent`. -/
structure Digits where
  coefficient : Nat
  exponent : Int
  deriving DecidableEq, Repr

namespace Digits

/-- The decimal digits of the coefficient, most significant first. -/
def chars (d : Digits) : List Char := Nat.toDigits 10 d.coefficient

/-- The power of ten of the leading digit. -/
def leading (d : Digits) : Int := d.exponent + d.chars.length - 1

end Digits

/-- The reals that round to `mantissa * 2 ^ power`, as three bounds in units of
`2 ^ (power - 2)`, so that half a gap and a quarter of a gap are whole. -/
structure Interval where
  low : Nat
  centre : Nat
  high : Nat
  closed : Bool
  unit : Int
  deriving DecidableEq, Repr

namespace Interval

/-- Below a power of two the gap to the next lower double is half as wide, except at the bottom of
the range, where the spacing no longer shrinks. -/
def ofFinite (mantissa : Nat) (power : Int) : Interval where
  low := if mantissa = leadingBit ∧ -1074 < power then 4 * mantissa - 1 else 4 * mantissa - 2
  centre := 4 * mantissa
  high := 4 * mantissa + 2
  closed := mantissa % 2 == 0
  unit := power - 2

def centreRatio (v : Interval) : Ratio := Ratio.scaled v.centre 2 v.unit

/-- Whether the decimal lies in the interval, by cross multiplication. -/
def contains (v : Interval) (d : Digits) : Bool :=
  let bin := Ratio.scaled 1 2 v.unit
  let dec := Ratio.scaled d.coefficient 10 d.exponent
  let point := dec.num * bin.den
  let low := v.low * bin.num * dec.den
  let high := v.high * bin.num * dec.den
  if v.closed then low ≤ point && point ≤ high else low < point && point < high

/-- The power of ten of the leading digit of a positive ratio. -/
def magnitude (r : Ratio) : Int :=
  if r.den ≤ r.num then (Nat.toDigits 10 (r.num / r.den)).length - 1
  else -(Nat.toDigits 10 ((r.den + r.num - 1) / r.num - 1)).length

/-- The neighbours of the centre on the grid of `places` digits that read back, the nearer first;
at the same distance the upper one comes first. -/
def candidates (v : Interval) (places : Nat) : List Digits :=
  let r := v.centreRatio
  let exponent : Int := magnitude r - places + 1
  let num := r.num * Nat.pow 10 (-exponent).toNat
  let den := r.den * Nat.pow 10 exponent.toNat
  let below : Digits := ⟨num / den, exponent⟩
  let above : Digits :=
    if num / den + 1 = Nat.pow 10 places then ⟨Nat.pow 10 (places - 1), exponent + 1⟩
    else ⟨num / den + 1, exponent⟩
  let ordered :=
    if num % den = 0 then [below]
    else if 2 * (num % den) < den then [below, above] else [above, below]
  ordered.filter v.contains

/-- The first grid with a hit, from one digit up. Seventeen digits always suffice. -/
def shortest (v : Interval) : Digits :=
  ((List.range 17).findSome? fun i => (v.candidates (i + 1)).head?).getD ⟨0, 0⟩

end Interval

end FrameGraph.Decimal
