import ParaLang.Decimal.Binary64

/-! # Shortest decimal digits

A binary64 number is written with the fewest decimal digits that still read back as the same
number; of several such decimals the closest one is taken, and of two equally close ones the one
with an even last digit.

Every real in an interval around the number reads back as it.  A grid of decimals with a given
number of digits meets that interval exactly if one of the two grid points next to the number lies
in it, so it is enough to try those two on each grid, coarsest grid first. -/

namespace ParaLang.Decimal

open ParaLang.Binary64 (scaled reachesPower)

/-- The exponent of the greatest power of ten that does not exceed a positive quotient. -/
def decimalExponent (numerator denominator : Nat) : Int :=
  let binary : Int := numerator.log2 - denominator.log2
  -- 0.30103 is the decimal logarithm of two, closely enough to miss by one at most
  let estimate : Int := Int.fdiv (binary * 30103) 100000
  if reachesPower 10 numerator denominator (estimate + 1) then estimate + 1
  else if reachesPower 10 numerator denominator estimate then estimate
  else estimate - 1

/-- The reals that read back as one number, as numerators over the common `denominator`. -/
structure RoundingInterval where
  low : Nat
  centre : Nat
  high : Nat
  denominator : Nat
  closed : Bool

/-- Half a unit to both sides, but a quarter below a power of two, where numbers are twice as
dense.  The ends read back as the number exactly if its mantissa is even. -/
def RoundingInterval.around (mantissa : Nat) (exponent : Int) : RoundingInterval :=
  let scale := Nat.pow 2 (exponent - 2).toNat
  let below := if mantissa = Nat.pow 2 52 ∧ exponent ≠ Binary64.leastExponent then 1 else 2
  { low := (4 * mantissa - below) * scale
    centre := 4 * mantissa * scale
    high := (4 * mantissa + 2) * scale
    denominator := Nat.pow 2 (2 - exponent).toNat
    closed := mantissa % 2 = 0 }

/-- Whether `digits * 10 ^ power` reads back as the number. -/
def RoundingInterval.holds (interval : RoundingInterval) (digits : Nat) (power : Int) : Bool :=
  let point := digits * Nat.pow 10 power.toNat * interval.denominator
  let unit := Nat.pow 10 (-power).toNat
  if interval.closed then interval.low * unit ≤ point && point ≤ interval.high * unit
  else interval.low * unit < point && point < interval.high * unit

/-- The best multiple of `10 ^ power` in the interval, if there is one. -/
def RoundingInterval.onGrid (interval : RoundingInterval) (power : Int) : Option Nat :=
  let (top, bottom) := scaled 10 interval.centre interval.denominator power
  let below := top / bottom
  match interval.holds below power, interval.holds (below + 1) power with
  | true, true => some (Binary64.roundHalfEven top bottom)
  | true, false => some below
  | false, true => some (below + 1)
  | false, false => none

/-- The shortest digits of a positive number and the power of ten of the last one.  Seventeen
digits always suffice. -/
def shortest (mantissa : Nat) (exponent : Int) : Nat × Int :=
  let interval := RoundingInterval.around mantissa exponent
  let leading := decimalExponent interval.centre interval.denominator
  let found := (List.range 17).findSome? fun (count : Nat) =>
    let power : Int := leading - count
    (interval.onGrid power).map fun digits => (digits, power)
  found.getD (0, 0)

/-- Where positional notation ends: decimal exponents from the first bound up to, but not
including, the second one are written without an exponent. -/
structure Layout where
  leastPositional : Int
  firstScientific : Int
  exponentDigits : Nat

/-- Drops the zeros at the end of a numeral. -/
def dropTrailingZeros (digits : List Char) : List Char :=
  (digits.reverse.dropWhile (· == '0')).reverse

/-- Writes `0.d₁d₂… * 10 ^ (leading + 1)` with a point between two digits. -/
def positional (digits : List Char) (leading : Int) : List Char :=
  if leading < 0 then '0' :: '.' :: (List.replicate (-leading - 1).toNat '0' ++ digits)
  else
    let whole := digits.take (leading.toNat + 1)
    let fraction := digits.drop (leading.toNat + 1)
    whole ++ List.replicate (leading.toNat + 1 - whole.length) '0' ++ '.' ::
      (if fraction.isEmpty then ['0'] else fraction)

/-- Writes one digit before the point and an exponent with its sign. -/
def scientific (layout : Layout) (digits : List Char) (leading : Int) : List Char :=
  let exponent := (toString leading.natAbs).toList
  digits.take 1 ++ (if digits.length ≤ 1 then [] else '.' :: digits.drop 1) ++
    ['e', if leading < 0 then '-' else '+'] ++
    List.replicate (layout.exponentDigits - exponent.length) '0' ++ exponent

/-- The text of a number: its shortest digits in the given layout. -/
def textIn (layout : Layout) (number : Float) : String :=
  match Binary64.ofFloat number with
  | .notANumber => "nan"
  | .infinite negative => if negative then "-inf" else "inf"
  | .finite negative mantissa exponent =>
    let unsigned :=
      if mantissa = 0 then ['0', '.', '0']
      else
        let (numeral, power) := shortest mantissa exponent
        let written := (toString numeral).toList
        let leading := power + written.length - 1
        let digits := dropTrailingZeros written
        if layout.leastPositional ≤ leading ∧ leading < layout.firstScientific then
          positional digits leading
        else scientific layout digits leading
    String.ofList (if negative then '-' :: unsigned else unsigned)

/-- Numbers from `10 ^ -4` up to, but not including, `10 ^ 16` are written positionally, and an
exponent has at least two digits. -/
def standardLayout : Layout := ⟨-4, 16, 2⟩

def text (number : Float) : String :=
  textIn standardLayout number

end ParaLang.Decimal
