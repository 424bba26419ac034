/-! # Exact contents of a binary64 number

`Binary64.ofFloat` reads the three fields of a binary64 number, and `Binary64.nearest` goes the
other way: it writes the number closest to a quotient of naturals, ties going to the even
neighbour.  Between the two everything is exact arithmetic on `Nat` and `Int`, which is where
shortest digits, decimal reading and the floored remainder are computed. -/

namespace ParaLang

/-- A finite number is `± mantissa * 2 ^ exponent`. -/
inductive Binary64 where
  | finite (negative : Bool) (mantissa : Nat) (exponent : Int)
  | infinite (negative : Bool)
  | notANumber
deriving DecidableEq, Repr

namespace Binary64

/-- The exponent of the last bit of the numbers closest to zero. -/
def leastExponent : Int := -1074

def ofFloat (number : Float) : Binary64 :=
  let bits := number.toBits.toNat
  let negative := bits / Nat.pow 2 63 == 1
  let field : Nat := bits / Nat.pow 2 52 % Nat.pow 2 11
  let fraction : Nat := bits % Nat.pow 2 52
  if field = 2047 then
    if fraction = 0 then .infinite negative else .notANumber
  else if field = 0 then .finite negative fraction leastExponent
  else .finite negative (fraction + Nat.pow 2 52) ((field : Int) - 1075)

/-- The numerator and denominator of `numerator / denominator / base ^ exponent`. -/
def scaled (base numerator denominator : Nat) (exponent : Int) : Nat × Nat :=
  (numerator * Nat.pow base (-exponent).toNat, denominator * Nat.pow base exponent.toNat)

/-- The natural closest to a quotient; a half goes to the even neighbour. -/
def roundHalfEven (numerator denominator : Nat) : Nat :=
  let quotient := numerator / denominator
  let remainder := numerator % denominator
  if 2 * remainder < denominator then quotient
  else if 2 * remainder > denominator then quotient + 1
  else quotient + quotient % 2

/-- Whether `base ^ exponent ≤ numerator / denominator`. -/
def reachesPower (base numerator denominator : Nat) (exponent : Int) : Bool :=
  let (top, bottom) := scaled base numerator denominator exponent
  bottom ≤ top

/-- The exponent of the greatest power of two that does not exceed a positive quotient. -/
def binaryExponent (numerator denominator : Nat) : Int :=
  let estimate : Int := numerator.log2 - denominator.log2
  if reachesPower 2 numerator denominator estimate then estimate else estimate - 1

/-- The bit pattern of infinity without its sign; the finite numbers have smaller ones. -/
def infiniteMagnitude : Nat := 2047 * Nat.pow 2 52

/-- The number with the given sign and bit pattern. -/
def ofMagnitude (negative : Bool) (magnitude : Nat) : Float :=
  Float.ofBits (UInt64.ofNat ((if negative then Nat.pow 2 63 else 0) + magnitude))

def infinity (negative : Bool) : Float :=
  ofMagnitude negative infiniteMagnitude

def zero (negative : Bool) : Float :=
  ofMagnitude negative 0

/-- The undefined number. -/
def undefinedNumber : Float :=
  ofMagnitude false (infiniteMagnitude + Nat.pow 2 51)

/-- The bit pattern of the number closest to a quotient; it lies past the finite ones when the
quotient is too large.  With the last bit at `2 ^ unit`, consecutive bit patterns are consecutive
multiples of that unit, so a mantissa that rounds up to the next power of two carries into the
exponent by itself. -/
def magnitude (numerator denominator : Nat) : Nat :=
  if numerator = 0 then 0
  else
    let unit := max leastExponent (binaryExponent numerator denominator - 52)
    let (top, bottom) := scaled 2 numerator denominator unit
    (unit - leastExponent).toNat * Nat.pow 2 52 + roundHalfEven top bottom

/-- The number closest to `± numerator / denominator`; infinite when the quotient is too large. -/
def nearest (negative : Bool) (numerator denominator : Nat) : Float :=
  ofMagnitude negative (min (magnitude numerator denominator) infiniteMagnitude)

/-- The closest number to an integer, unless the integer is too large for a finite one. -/
def ofInt? (value : Int) : Option Float :=
  let bits := magnitude value.natAbs 1
  if bits < infiniteMagnitude then some (ofMagnitude (value < 0) bits) else none

/-! ## Floored remainder

The remainder of two finite numbers is itself a binary64 number, so it is computed exactly; only
moving it to the sign of the divisor can round. -/

/-- The remainder with the sign of the dividend. -/
def truncatedRemainder (dividend divisor : Float) : Float :=
  match ofFloat dividend, ofFloat divisor with
  | .finite negative mantissa exponent, .finite _ divisorMantissa divisorExponent =>
    if divisorMantissa = 0 then undefinedNumber
    else
      let unit := min exponent divisorExponent
      let left := mantissa * Nat.pow 2 (exponent - unit).toNat
      let right := divisorMantissa * Nat.pow 2 (divisorExponent - unit).toNat
      let (top, bottom) := scaled 2 (left % right) 1 (-unit)
      nearest negative top bottom
  | .finite _ _ _, .infinite _ => dividend
  | _, _ => undefinedNumber

/-- The remainder with the sign of the divisor, also when it is zero. -/
def flooredRemainder (dividend divisor : Float) : Float :=
  let remainder := truncatedRemainder dividend divisor
  if remainder == 0.0 then zero (divisor < 0.0)
  else if (divisor < 0.0) != (remainder < 0.0) then remainder + divisor
  else remainder

end Binary64

end ParaLang
