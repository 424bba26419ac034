import ParaLang.Decimal.Binary64
import ParaLang.Failure

/-! # Arithmetic

Operators work on integers and floats.  As soon as one operand is a float the operation is done in
binary64; otherwise it is done exactly on integers, and a result that does not fit into 32 bits is
refused. -/

namespace ParaLang

/-- Where an operation is reported. -/
structure Place where
  line : Int
  number : Int
deriving DecidableEq, Repr

def Place.refuse {α : Type} (place : Place) (cause : Cause) : Result α :=
  fail cause place.line place.number

inductive BinaryOperator where
  | add
  | subtract
  | multiply
  | divide
  | remainder
  | power
deriving DecidableEq, Repr

def BinaryOperator.ofSymbol? : String → Option BinaryOperator
  | "+" => some add
  | "-" => some subtract
  | "*" => some multiply
  | "/" => some divide
  | "%" => some remainder
  | "^" => some power
  | _ => none

namespace Arithmetic

/-- An exact result, if it fits into 32 bits. -/
def checked (result : Int) (place : Place) : Result Value :=
  if Value.inRange result then .ok (.int result) else place.refuse (.integerOverflow result)

/-- The closest float to an integer operand. -/
def widen (operand : Int) : Result Float :=
  match Binary64.ofInt? operand with
  | some number => .ok number
  | none => .error (.fault .tooLargeForFloat)

/-! ## Division

A quotient or a remainder takes the proof that the divisor is not zero. -/

/-- The quotient rounded towards zero. -/
def quotient (left right : Int) (_ : ¬right = 0) : Int :=
  left.tdiv right

/-- The remainder with the sign of the divisor. -/
def remainder (left right : Int) (_ : ¬right = 0) : Int :=
  left.fmod right

def floatQuotient (left right : Float) (_ : ¬(right == 0.0) = true) : Float :=
  left / right

def floatRemainder (left right : Float) (_ : ¬(right == 0.0) = true) : Float :=
  Binary64.flooredRemainder left right

/-! ## Powers -/

def floatPower (base exponent : Float) (place : Place) : Result Value :=
  if base == 0.0 && exponent < 0.0 then place.refuse .zeroToNegativePower
  else
    let result := base.pow exponent
    if base.isFinite && exponent.isFinite then
      if result.isNaN then place.refuse (.noRealPower base exponent)
      else if result.isInf then place.refuse (.powerOutOfRange base exponent)
      else .ok (.float result)
    else .ok (.float result)

/-- An exact power.  The powers of -1, 0 and 1 depend only on the parity of a positive exponent, so
a large exponent is replaced by 1 or 2 for them. -/
def integerPower (base : Int) (exponent : Nat) : Int :=
  if base.natAbs ≤ 1 ∧ 2 < exponent then base.pow (2 - exponent % 2) else base.pow exponent

/-! ## Operators -/

def onIntegers (operator : BinaryOperator) (left right : Int) (place : Place) : Result Value :=
  match operator with
  | .add => checked (left + right) place
  | .subtract => checked (left - right) place
  | .multiply => checked (left * right) place
  | .divide =>
    if zero : right = 0 then place.refuse .divisionByZero
    else checked (quotient left right zero) place
  | .remainder =>
    if zero : right = 0 then place.refuse .moduloByZero
    else checked (remainder left right zero) place
  | .power =>
    if right < 0 then do floatPower (← widen left) (← widen right) place
    -- such a power is too large whatever the base, so it need not be computed
    else if 1 < left.natAbs ∧ 31 < right then place.refuse (.powerOverflow left right)
    else checked (integerPower left right.toNat) place

def onFloats (operator : BinaryOperator) (left right : Float) (place : Place) : Result Value :=
  match operator with
  | .add => .ok (.float (left + right))
  | .subtract => .ok (.float (left - right))
  | .multiply => .ok (.float (left * right))
  | .divide =>
    if zero : right == 0.0 then place.refuse .divisionByZero
    else .ok (.float (floatQuotient left right zero))
  | .remainder =>
    if zero : right == 0.0 then place.refuse .moduloByZero
    else .ok (.float (floatRemainder left right zero))
  | .power => floatPower left right place

/-- The operator a symbol stands for. -/
def operatorOf (symbol : String) (place : Place) : Result BinaryOperator :=
  match BinaryOperator.ofSymbol? symbol with
  | some operator => .ok operator
  | none => place.refuse (.unknownOperator symbol)

def apply (symbol : String) (left right : Value) (place : Place) : Result Value :=
  match left, right with
  | .int left, .int right => do onIntegers (← operatorOf symbol place) left right place
  | .int left, .float right => do
    let left ← widen left
    onFloats (← operatorOf symbol place) left right place
  | .float left, .int right => do
    let right ← widen right
    onFloats (← operatorOf symbol place) left right place
  | .float left, .float right => do onFloats (← operatorOf symbol place) left right place
  | left, right => place.refuse (.unsupportedOperands symbol left.typeName right.typeName)

def negate (operand : Value) (place : Place) : Result Value :=
  match operand with
  | .int operand => checked (-operand) place
  | .float operand => .ok (.float (-operand))
  | operand => place.refuse (.cannotNegate operand.typeName)

end Arithmetic

end ParaLang
