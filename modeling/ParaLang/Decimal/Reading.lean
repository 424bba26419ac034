import ParaLang.Decimal.Binary64
import ParaLang.Text

/-! # Reading numbers

Integers and decimals may be surrounded by blanks, may carry one sign, and may have single
underscores between digits.  An integer has at most 4300 digits.  A decimal needs a digit on at
least one side of its point and may end in an exponent; infinities and the undefined number are
read by name. -/

namespace ParaLang.Decimal

open ParaLang.Text (digitValue? trim)

def startsWithDigit : List Char → Bool
  | [] => false
  | character :: _ => (digitValue? character).isSome

/-- The digits at the front and what follows them.  An underscore is skipped only between two
digits. -/
def takeDigits (afterDigit : Bool) : List Char → List Nat × List Char
  | [] => ([], [])
  | character :: rest =>
    match digitValue? character with
    | some digit =>
      let (digits, remaining) := takeDigits true rest
      (digit :: digits, remaining)
    | none =>
      if character = '_' ∧ afterDigit ∧ startsWithDigit rest then takeDigits false rest
      else ([], character :: rest)

def numeralValue (digits : List Nat) : Nat :=
  digits.foldl (10 * · + ·) 0

/-- Whether the text is negative, and the text without its sign. -/
def takeSign : List Char → Bool × List Char
  | '-' :: rest => (true, rest)
  | '+' :: rest => (false, rest)
  | rest => (false, rest)

/-- The sign and the digits of a text that is an integer. -/
def takeInteger? (text : List Char) : Option (Bool × List Nat) :=
  let (negative, unsigned) := takeSign text
  match takeDigits false unsigned with
  | (digit :: digits, []) => some (negative, digit :: digits)
  | _ => none

def signedValue (negative : Bool) (digits : List Nat) : Int :=
  let magnitude : Int := numeralValue digits
  if negative then -magnitude else magnitude

/-- The most digits that the text of an integer may have.  Leading zeros count, the sign and the
underscores do not. -/
def maxDigits : Nat := 4300

/-- The integer that a text denotes; longer ones than `maxDigits` are not read. -/
def readInt? (text : String) : Option Int :=
  match takeInteger? (trim text.toList) with
  | some (negative, digits) =>
    if digits.length ≤ maxDigits then some (signedValue negative digits) else none
  | none => none

/-- The exponent at the end of a decimal: zero when there is none. -/
def readExponent? : List Char → Option Int
  | [] => some 0
  | mark :: rest =>
    if mark = 'e' ∨ mark = 'E' then
      (takeInteger? rest).map fun (negative, digits) => signedValue negative digits
    else none

/-- The number closest to `± digits * 10 ^ power`.  Powers far outside the range of binary64 are
decided by the number of digits alone. -/
def nearestDecimal (negative : Bool) (digits : List Nat) (power : Int) : Float :=
  let significant := digits.dropWhile (· == 0)
  let numeral := numeralValue significant
  let leading := power + significant.length
  -- the cuts lie well outside the exponents of binary64 and spare huge powers of ten
  if numeral = 0 ∨ leading < -400 then Binary64.zero negative
  else if 400 < leading then Binary64.infinity negative
  else
    let (top, bottom) := Binary64.scaled 10 numeral 1 (-power)
    Binary64.nearest negative top bottom

/-- The digits around the point and the rest; a point alone is no number. -/
def takeDecimal? (text : List Char) : Option (List Nat × List Nat × List Char) :=
  let (whole, rest) := takeDigits false text
  let (fraction, remaining) := match rest with
    | '.' :: after => takeDigits false after
    | _ => ([], rest)
  if whole.isEmpty && fraction.isEmpty then none else some (whole, fraction, remaining)

def readFloat? (text : String) : Option Float :=
  let (negative, unsigned) := takeSign (trim text.toList)
  let name := String.ofList (unsigned.map Char.toLower)
  if name = "inf" ∨ name = "infinity" then some (Binary64.infinity negative)
  else if name = "nan" then some Binary64.undefinedNumber
  else do
    let (whole, fraction, rest) ← takeDecimal? unsigned
    let exponent ← readExponent? rest
    return nearestDecimal negative (whole ++ fraction) (exponent - fraction.length)

end ParaLang.Decimal
