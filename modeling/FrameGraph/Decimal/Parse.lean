/-! Decimal texts read back as doubles: an optional sign, digits with at most one point
among them, and an optional power of ten; or an infinity or NaN by name. The nearest
double is taken. -/

namespace FrameGraph.Decimal

/-- The value of a list of digits, of which there is at least one. -/
def natural? (digits : List Char) : Option Nat :=
  if digits.isEmpty then none
  else
    digits.foldlM (fun n c => if c.isDigit then some (10 * n + (c.toNat - '0'.toNat)) else none) 0

/-- A sign, if there is one, and the rest. -/
def splitSign : List Char → Bool × List Char
  | '-' :: rest => (true, rest)
  | '+' :: rest => (false, rest)
  | cs => (false, cs)

/-- The part before the first character with the property and the part after it, if there is one. -/
def splitAt? (p : Char → Bool) (cs : List Char) : List Char × Option (List Char) :=
  match cs.dropWhile fun c => !p c with
  | [] => (cs, none)
  | _ :: rest => (cs.takeWhile fun c => !p c, some rest)

/-- A power of ten, with a sign. -/
def power? (cs : List Char) : Option Int := do
  let (negative, digits) := splitSign cs
  let n ← natural? digits
  return if negative then -n else n

/-- A number without its sign. -/
def magnitude? (cs : List Char) : Option Float :=
  match String.ofList (cs.map Char.toLower) with
  | "inf" | "infinity" => some (1.0 / 0.0)
  | "nan" => some (0.0 / 0.0)
  | _ => do
    let (mantissa, power) := splitAt? (fun c => c == 'e' || c == 'E') cs
    let (whole, fraction) := splitAt? (· == '.') mantissa
    let places := fraction.getD []
    let coefficient ← natural? (whole ++ places)
    let shift ← power.elim (some 0) power?
    let exponent := shift - places.length
    return Float.ofScientific coefficient (exponent < 0) exponent.natAbs

def parse? (text : String) : Option Float := do
  let (negative, cs) := splitSign text.toList
  let x ← magnitude? cs
  return if negative then -x else x

end FrameGraph.Decimal
