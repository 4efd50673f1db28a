/-! What a double denotes, in exact arithmetic. The 64 bits split into a sign, a
power of two and a whole mantissa, so a finite double is `± mantissa * 2 ^ power`
and every later decision about its decimal text is a comparison of naturals. -/

namespace FrameGraph.Decimal

/-- The weight of the implicit leading bit of a mantissa, two to the fifty-second power. -/
def leadingBit : Nat := 4503599627370496

/-- The number a bit pattern denotes. -/
inductive Reading
  | nan
  | infinite (negative : Bool)
  | finite (negative : Bool) (mantissa : Nat) (power : Int)
  deriving DecidableEq, Repr

namespace Reading

/-- The bits from high to low: one of sign, eleven of exponent, fifty-two of fraction. An exponent
field of zero has no implicit leading bit; a full one is reserved for infinities and NaN. -/
def ofBits (bits : Nat) : Reading :=
  let negative := bits / leadingBit / 2048 % 2 == 1
  let field : Nat := bits / leadingBit % 2048
  let fraction := bits % leadingBit
  if field = 2047 then if fraction = 0 then .infinite negative else .nan
  else if field = 0 then .finite negative fraction (-1074)
  else .finite negative (leadingBit + fraction) ((field : Int) - 1075)

def ofFloat (x : Float) : Reading := ofBits x.toBits.toNat

end Reading

/-- A quotient of naturals, not necessarily in lowest terms. -/
structure Ratio where
  num : Nat
  den : Nat
  deriving DecidableEq, Repr

namespace Ratio

/-- `m * b ^ e` for any integer `e`. -/
def scaled (m b : Nat) (e : Int) : Ratio := ⟨m * Nat.pow b e.toNat, Nat.pow b (-e).toNat⟩

/-- The quotient rounded to the nearest whole number, a half going to the even neighbour. -/
def roundEven (r : Ratio) : Nat :=
  let whole := r.num / r.den
  let rest := 2 * (r.num % r.den)
  if rest < r.den then whole
  else if r.den < rest then whole + 1
  else whole + whole % 2

end Ratio

end FrameGraph.Decimal
