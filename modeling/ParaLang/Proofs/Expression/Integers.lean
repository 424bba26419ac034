import Mathlib
import ParaLang.Proofs.Expression.Soundness

/-! # Integers are exact or refused

What an operator answers on integers of 32 bits is said in terms of rational numbers: quotients lose
their fraction, remainders are those of the quotient rounded down, and powers are powers.  An answer
that does not fit is refused, also where it is not computed. -/

namespace ParaLang

namespace Arithmetic

/-! ## Exact results -/

/-- A ratio without its fraction. -/
def truncated (ratio : ℚ) : Int :=
  if 0 ≤ ratio then ⌊ratio⌋ else ⌈ratio⌉

/-- An operator has an exact result on integers. -/
def HasResult (operator : BinaryOperator) (right : Int) : Prop :=
  match operator with
  | .divide | .remainder => right ≠ 0
  | .power => 0 ≤ right
  | _ => True

/-- The exact result of an operator, where it has one. -/
def exactResult (operator : BinaryOperator) (left right : Int) : Int :=
  match operator with
  | .add => left + right
  | .subtract => left - right
  | .multiply => left * right
  | .divide => truncated (left / right)
  | .remainder => left - right * ⌊(left / right : ℚ)⌋
  | .power => left ^ right.toNat

/-! ## Division -/

theorem floor_ratio (left right : Int) : ⌊(left / right : ℚ)⌋ = left.fdiv right := by
  obtain ⟨divisor, rfl | rfl⟩ := right.eq_nat_or_neg
  · rw [Int.fdiv_eq_ediv_of_nonneg _ (Int.natCast_nonneg _)]
    exact_mod_cast Rat.floor_intCast_div_natCast left divisor
  · rw [← Int.neg_fdiv_neg, neg_neg, Int.fdiv_eq_ediv_of_nonneg _ (Int.natCast_nonneg _),
      ← Rat.floor_intCast_div_natCast]
    push_cast
    rw [div_neg, neg_div]

theorem truncated_neg (ratio : ℚ) : truncated (-ratio) = -truncated ratio := by
  rcases lt_trichotomy ratio 0 with below | rfl | above
  · rw [truncated, truncated, if_pos (by linarith), if_neg (by linarith), Int.floor_neg]
  · simp [truncated]
  · rw [truncated, truncated, if_neg (by linarith), if_pos above.le, Int.ceil_neg]

theorem truncated_natural (dividend divisor : Nat) :
    truncated ((dividend : Int) / (divisor : Int)) = (dividend : Int).tdiv divisor := by
  have nonnegative : (0 : ℚ) ≤ ((dividend : Int) : ℚ) / ((divisor : Int) : ℚ) := by positivity
  rw [truncated, if_pos nonnegative, floor_ratio,
    Int.fdiv_eq_ediv_of_nonneg _ (Int.natCast_nonneg _),
    Int.tdiv_eq_ediv_of_nonneg (Int.natCast_nonneg _)]

/-- The quotient that is computed is the ratio without its fraction. -/
theorem truncated_ratio (left right : Int) : truncated (left / right) = left.tdiv right := by
  obtain ⟨dividend, rfl | rfl⟩ := left.eq_nat_or_neg <;>
    obtain ⟨divisor, rfl | rfl⟩ := right.eq_nat_or_neg
  · exact truncated_natural dividend divisor
  · rw [Int.tdiv_neg, ← truncated_natural, ← truncated_neg, Int.cast_neg, div_neg]
  · rw [Int.neg_tdiv, ← truncated_natural, ← truncated_neg, Int.cast_neg, neg_div]
  · rw [Int.neg_tdiv, Int.tdiv_neg, neg_neg, ← truncated_natural, Int.cast_neg, Int.cast_neg,
      neg_div_neg_eq]

theorem fmod_eq (left right : Int) :
    left.fmod right = left - right * ⌊(left / right : ℚ)⌋ := by
  rw [floor_ratio, Int.fmod_def]

/-- A remainder has the sign of the divisor and is smaller. -/
theorem fmod_bounds (left : Int) {right : Int} (nonzero : right ≠ 0) :
    (left.fmod right).natAbs < right.natAbs ∧ 0 ≤ left.fmod right * right := by
  rcases lt_or_gt_of_ne nonzero with negative | positive
  · have flipped : left.fmod right = -((-left).fmod (-right)) := by rw [Int.neg_fmod_neg, neg_neg]
    have lower := Int.fmod_nonneg_of_pos (-left) (neg_pos.mpr negative)
    have upper := Int.fmod_lt_of_pos (-left) (neg_pos.mpr negative)
    rw [flipped]
    exact ⟨by omega, by nlinarith⟩
  · have lower := Int.fmod_nonneg_of_pos left positive
    have upper := Int.fmod_lt_of_pos left positive
    exact ⟨by omega, by positivity⟩

/-! ## Powers -/

theorem integerPower_eq (base : Int) (exponent : Nat) :
    integerPower base exponent = base ^ exponent := by
  rw [integerPower]
  split
  · next short =>
    obtain ⟨small, large⟩ := short
    obtain rfl | rfl | rfl : base = 0 ∨ base = 1 ∨ base = -1 := by omega
    · rw [Int.pow_eq, zero_pow (by omega), zero_pow (by omega)]
    · rw [Int.pow_eq, one_pow, one_pow]
    · rcases Nat.even_or_odd exponent with even | odd
      · rw [Nat.even_iff.mp even, even.neg_one_pow]
        rfl
      · rw [Nat.odd_iff.mp odd, odd.neg_one_pow]
        rfl
  · rfl

/-- The power that is refused without being computed does not fit. -/
theorem power_outside {base : Int} {exponent : Nat} (large : 1 < base.natAbs)
    (high : 31 < exponent) : Value.inRange (base ^ exponent) = false := by
  have size : 2 ^ 32 ≤ (base ^ exponent).natAbs :=
    calc 2 ^ 32 ≤ 2 ^ exponent := Nat.pow_le_pow_right (by decide) high
      _ ≤ base.natAbs ^ exponent := Nat.pow_le_pow_left large exponent
      _ = (base ^ exponent).natAbs := (Int.natAbs_pow base exponent).symm
  rw [Bool.eq_false_iff, Ne, Value.inRange_iff]
  omega

/-! ## Answers -/

/-- What an operator answers on two integers: its exact result if that fits, a refusal if it does
not, and where there is none, a diagnostic or something other than an integer. -/
inductive Answers (operator : BinaryOperator) (left right : Int) (place : Place) :
    Result Value → Prop where
  | result (has : HasResult operator right)
      (fits : Value.inRange (exactResult operator left right) = true) :
      Answers operator left right place (.ok (.int (exactResult operator left right)))
  | overflow (has : HasResult operator right)
      (outside : Value.inRange (exactResult operator left right) = false) {cause : Cause}
      (named : cause.name = "IntegerOverflow") :
      Answers operator left right place (place.refuse cause)
  | divisionByZero (divides : operator = .divide) (zero : right = 0) :
      Answers operator left right place (place.refuse .divisionByZero)
  | moduloByZero (divides : operator = .remainder) (zero : right = 0) :
      Answers operator left right place (place.refuse .moduloByZero)
  | zeroToNegative (raises : operator = .power) (negative : right < 0) (zero : left = 0)
      {cause : Cause} (named : cause.name = "DivisionByZero") :
      Answers operator left right place (place.refuse cause)
  | negativePower {answer : Result Value} (raises : operator = .power) (negative : right < 0)
      (nonzero : left ≠ 0) (noInteger : ∀ number, answer ≠ .ok (.int number)) :
      Answers operator left right place answer

variable {operator : BinaryOperator} {left right : Int} {place : Place}

theorem answers_checked (operator : BinaryOperator) (has : HasResult operator right) :
    Answers operator left right place (checked (exactResult operator left right) place) := by
  unfold checked
  split
  · next fits => exact .result has fits
  · next outside => exact .overflow has (Bool.eq_false_iff.mpr outside) rfl

theorem floatPower_noInteger (base exponent : Float) (number : Int) :
    floatPower base exponent place ≠ .ok (.int number) := by
  intro equal
  unfold floatPower at equal
  split at equal
  · cases equal
  · simp only at equal
    split at equal
    · split at equal
      · cases equal
      · split at equal <;> cases equal
    · cases equal

theorem widen_of_fits (fits : Value.inRange left = true) :
    ∃ widened, Binary64.ofInt? left = some widened ∧ widen left = .ok widened := by
  obtain ⟨lower, upper⟩ := Value.inRange_iff.mp fits
  obtain ⟨widened, isWidened⟩ := Binary64.ofInt?_of_bounds lower upper
  exact ⟨widened, isWidened, by rw [widen, isWidened]⟩

theorem answers_onIntegers (operator : BinaryOperator) (leftFits : Value.inRange left = true)
    (rightFits : Value.inRange right = true) (place : Place) :
    Answers operator left right place (onIntegers operator left right place) := by
  cases operator with
  | add => exact answers_checked .add trivial
  | subtract => exact answers_checked .subtract trivial
  | multiply => exact answers_checked .multiply trivial
  | divide =>
    rw [onIntegers]
    split
    · next zero => exact .divisionByZero rfl zero
    · next nonzero =>
      rw [quotient, ← truncated_ratio]
      exact answers_checked .divide nonzero
  | remainder =>
    rw [onIntegers]
    split
    · next zero => exact .moduloByZero rfl zero
    · next nonzero =>
      rw [remainder, fmod_eq]
      exact answers_checked .remainder nonzero
  | power =>
    rw [onIntegers]
    split
    · next negative =>
      obtain ⟨base, isBase, widenedLeft⟩ := widen_of_fits leftFits
      obtain ⟨exponent, isExponent, widenedRight⟩ := widen_of_fits rightFits
      rw [widenedLeft, widenedRight, Result.ok_bind, Result.ok_bind]
      by_cases zero : left = 0
      · have isZero : base = 0.0 := by
          rw [zero] at isBase
          exact (Option.some.inj isBase).symm
        have below : exponent < 0.0 := Binary64.ofInt?_of_negative negative isExponent
        have refused : floatPower base exponent place = place.refuse .zeroToNegativePower := by
          rw [floatPower, isZero, if_pos]
          simp only [below, decide_true, Bool.and_true]
          decide
        rw [refused]
        exact .zeroToNegative rfl negative zero rfl
      · exact .negativePower rfl negative zero (floatPower_noInteger base exponent)
    · next nonnegative =>
      have has : HasResult .power right := not_lt.mp nonnegative
      split
      · next short =>
        exact .overflow has (power_outside short.1 (by omega)) rfl
      · rw [integerPower_eq]
        exact answers_checked .power has

/-- Integers of 32 bits are calculated with exactly, or the operation is refused: an operator
answers its exact result if that fits and an overflow if it does not, also where the power is not
computed.  A remainder has the sign of the divisor and is smaller, and only the least integer has
no negation. -/
theorem apply_integers {symbol : String} (known : BinaryOperator.ofSymbol? symbol = some operator)
    (leftFits : Value.inRange left = true) (rightFits : Value.inRange right = true)
    (place : Place) :
    Answers operator left right place (apply symbol (.int left) (.int right) place) ∧
    (right ≠ 0 → (exactResult .remainder left right).natAbs < right.natAbs ∧
      0 ≤ exactResult .remainder left right * right) ∧
    negate (.int left) place =
      if left = -2147483648 then place.refuse (.integerOverflow 2147483648)
      else .ok (.int (-left)) := by
  refine ⟨?_, fun nonzero => ?_, ?_⟩
  · rw [apply, operatorOf, known]
    exact answers_onIntegers operator leftFits rightFits place
  · rw [exactResult, ← fmod_eq]
    exact fmod_bounds left nonzero
  · obtain ⟨lower, upper⟩ := Value.inRange_iff.mp leftFits
    by_cases least : left = -2147483648
    · rw [if_pos least, least]
      rfl
    · have fits : Value.inRange (-left) = true := Value.inRange_iff.mpr ⟨by omega, by omega⟩
      rw [if_neg least, negate, checked, if_pos fits]

theorem apply_integers_least :
    BinaryOperator.ofSymbol? "/" = some .divide ∧ Value.inRange (-2147483648) = true ∧
    Value.inRange (-1) = true ∧
    Answers .divide (-2147483648) (-1) ⟨1, 2⟩
      (apply "/" (.int (-2147483648)) (.int (-1)) ⟨1, 2⟩) ∧
    ((exactResult .remainder (-2147483648) (-1)).natAbs < (-1 : Int).natAbs ∧
      0 ≤ exactResult .remainder (-2147483648) (-1) * -1) ∧
    negate (.int (-2147483648)) ⟨1, 2⟩ =
      (⟨1, 2⟩ : Place).refuse (.integerOverflow 2147483648) := by
  have known : BinaryOperator.ofSymbol? "/" = some .divide := rfl
  have leftFits : Value.inRange (-2147483648) = true := rfl
  have rightFits : Value.inRange (-1) = true := rfl
  obtain ⟨answers, remainder, negated⟩ := apply_integers known leftFits rightFits ⟨1, 2⟩
  exact ⟨known, leftFits, rightFits, answers, remainder (by decide), negated⟩

/-- The least integer is a power. -/
example : apply "^" (.int (-2)) (.int 31) ⟨1, 2⟩ = .ok (.int (-2147483648)) := rfl

end Arithmetic

end ParaLang
