import FrameGraph.Decimal.Shortest

/-! Decimal texts of doubles. A `Layout` records the choices of one notation:
which magnitudes are written positionally and whether a whole number keeps `.0`.
`precise` keeps it and writes an exponent outside `10^-4 .. 10^16`; `plain`
drops it and never writes an exponent. `fixed` writes a given number of places of
the exact value, a half going to the even neighbour. -/

namespace FrameGraph.Decimal

structure Layout where
  /-- Powers of ten of the leading digit that are written without an exponent; `none` for all. -/
  positional : Option (Int × Int)
  keepPoint : Bool

namespace Layout

/-- Values inside debugging texts. -/
def precise : Layout := ⟨some (-4, 15), true⟩

/-- Values inside messages. -/
def plain : Layout := ⟨none, false⟩

/-- The digits with a point after the one of weight `10 ^ 0`. -/
def positionalText (keepPoint : Bool) (d : Digits) : String :=
  let digits := d.chars
  if 0 ≤ d.exponent then
    String.ofList (digits ++ List.replicate d.exponent.toNat '0') ++
      (if keepPoint then ".0" else "")
  else
    let places := (-d.exponent).toNat
    let whole := digits.take (digits.length - places)
    let fraction := List.replicate (places - digits.length) '0' ++
      digits.drop (digits.length - places)
    String.ofList (if whole.isEmpty then ['0'] else whole) ++ "." ++ String.ofList fraction

/-- One digit, the rest after a point if there is a rest, and the power of ten after `e`. -/
def exponentText (d : Digits) : String :=
  let digits := d.chars
  let tail := digits.drop 1
  String.ofList (digits.take 1) ++ (if tail.isEmpty then "" else "." ++ String.ofList tail) ++
    "e" ++ toString d.leading

def text (layout : Layout) (d : Digits) : String :=
  match layout.positional with
  | none => positionalText layout.keepPoint d
  | some (low, high) =>
    if low ≤ d.leading ∧ d.leading ≤ high then positionalText layout.keepPoint d
    else exponentText d

end Layout

def signed (negative : Bool) (text : String) : String := if negative then "-" ++ text else text

/-- The text of a double in a layout, with the fewest digits that read back. -/
def render (layout : Layout) (x : Float) : String :=
  match Reading.ofFloat x with
  | .nan => "NaN"
  | .infinite negative => signed negative "inf"
  | .finite negative 0 _ => signed negative (if layout.keepPoint then "0.0" else "0")
  | .finite negative mantissa power =>
    signed negative (layout.text (Interval.ofFinite mantissa power).shortest)

/-- The digits of `n` with the last `places` of them after a point. -/
def placed (n places : Nat) : String :=
  let digits := Nat.toDigits 10 n
  let padded := List.replicate (places + 1 - digits.length) '0' ++ digits
  let cut := padded.length - places
  String.ofList (padded.take cut) ++
    (if places = 0 then "" else "." ++ String.ofList (padded.drop cut))

/-- The exact value rounded to `places` decimals. The sign of a negative number stays when all its
digits round away. -/
def fixed (places : Nat) (x : Float) : String :=
  match Reading.ofFloat x with
  | .nan => "NaN"
  | .infinite negative => signed negative "inf"
  | .finite negative mantissa power =>
    let exact := Ratio.scaled mantissa 2 power
    signed negative (placed (Ratio.roundEven ⟨exact.num * Nat.pow 10 places, exact.den⟩) places)

end FrameGraph.Decimal
