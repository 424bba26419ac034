import Mathlib.Data.List.TakeWhile
import ParaLang.Proofs.Decimal.Digits
import ParaLang.Proofs.Decimal.Numerals

/-! # Reading what has been written

A number whose text has no exponent reads back from it: its text is a decimal of the shortest
digits, which round to the number. -/

namespace ParaLang.Decimal

open ParaLang.Binary64

/-! ## Numerals -/

theorem numeral_append_zeros (text : List Char) (count : Nat) :
    numeral (text ++ List.replicate count '0') = numeral text * 10 ^ count := by
  rw [numeral_eq, numeral_eq, Nat.ofDigitChars_append, Nat.ofDigitChars_replicate_zero, mul_comm]

theorem numeral_toString (value : Nat) : numeral (toString value).toList = value := by
  rw [numeral_eq, Nat.toString_eq_repr, Nat.toList_repr, Nat.ofDigitChars_ten_toDigits]

theorem isNumeral_toString (value : Nat) : IsNumeral (toString value).toList := by
  rw [Nat.toString_eq_repr, Nat.toList_repr]
  exact ⟨Nat.toDigits_ne_nil,
    fun character member => Nat.isDigit_of_mem_toDigits (by norm_num) (by norm_num) member⟩

/-- An integer of 32 bits has few enough digits to be read. -/
theorem length_toString {value : Nat} (fits : value ≤ 2147483647) :
    (toString value).toList.length ≤ maxDigits := by
  rw [Nat.toString_eq_repr, Nat.toList_repr]
  have few := (@Nat.length_toDigits_le_iff 10 value 10 (by norm_num) (by norm_num)).mpr (by omega)
  exact few.trans (by decide)

/-- A natural has as many digits as it needs. -/
theorem pow_length_le {value : Nat} (positive : 0 < value) :
    10 ^ ((toString value).toList.length - 1) ≤ value := by
  rw [Nat.toString_eq_repr, Nat.toList_repr]
  rcases Nat.lt_or_ge 1 (Nat.toDigits 10 value).length with several | one
  · have exact := @Nat.length_toDigits_le_iff 10 value ((Nat.toDigits 10 value).length - 1)
      (by norm_num) (by omega)
    omega
  · rw [Nat.sub_eq_zero_of_le one, pow_zero]
    exact positive

theorem numeralValue_lt {digits : List Nat} (inside : ∀ digit ∈ digits, digit < 10) :
    numeralValue digits < 10 ^ digits.length := by
  induction digits using List.reverseRecOn with
  | nil => simp [numeralValue]
  | append_singleton digits digit inductionHypothesis =>
    have earlier := inductionHypothesis fun other member => inside other (by simp [member])
    have last := inside digit (by simp)
    simp only [numeralValue, List.foldl_append, List.foldl_cons, List.foldl_nil, List.length_append,
      List.length_singleton, pow_succ] at earlier ⊢
    omega

theorem numeralValue_dropWhile (digits : List Nat) :
    numeralValue (digits.dropWhile (· == 0)) = numeralValue digits := by
  induction digits with
  | nil => rfl
  | cons digit digits inductionHypothesis =>
    rw [List.dropWhile_cons]
    split
    · rename_i zero
      have zero : digit = 0 := by simpa using zero
      rw [inductionHypothesis, zero]
      rfl
    · rfl

theorem decimal_shift (digits count : Nat) (power : Int) :
    decimal (digits * 10 ^ count) power = decimal digits (power + count) := by
  rw [decimal, decimal, zpow_add₀ (by norm_num), zpow_natCast]
  push_cast
  ring

/-! ## Reading digits -/

/-- Digits that lie in the interval of a number are read as that number. -/
theorem nearestDecimal_eq {digits : List Nat} {power : Int} {mantissa : Nat} {exponent : Int}
    (inside : ∀ digit ∈ digits, digit < 10) (normal : IsNormal mantissa exponent)
    (positive : 0 < mantissa)
    (rounds : RoundsTo (decimal (numeralValue digits) power) mantissa exponent)
    (small : (10 : ℚ) ^ (-400 : Int) ≤ decimal (numeralValue digits) power)
    (short : power + digits.length ≤ 400) :
    nearestDecimal false digits power = ofMagnitude false (magnitudeOf mantissa exponent) := by
  have value := rounds.pos positive
  have significant := numeralValue_dropWhile digits
  have nonzero : numeralValue digits ≠ 0 := by
    intro zero
    rw [zero, decimal, Nat.cast_zero, zero_mul] at value
    exact lt_irrefl 0 value
  have shorter : (digits.dropWhile (· == 0)).length ≤ digits.length :=
    (List.dropWhile_suffix _).length_le
  have leading : -400 < power + (digits.dropWhile (· == 0)).length := by
    have bound := @numeralValue_lt (digits.dropWhile (· == 0)) fun digit member =>
      inside digit (List.dropWhile_subset _ member)
    have bound : ((numeralValue digits : Nat) : ℚ) <
        ((10 ^ (digits.dropWhile (· == 0)).length : Nat) : ℚ) := by
      rw [← significant]
      exact_mod_cast bound
    have below : decimal (numeralValue digits) power <
        (10 : ℚ) ^ (power + (digits.dropWhile (· == 0)).length) := by
      rw [decimal, zpow_add₀ (by norm_num), zpow_natCast, mul_comm]
      push_cast at bound
      exact mul_lt_mul_of_pos_left bound (by positivity)
    exact (zpow_lt_zpow_iff_right₀ (by norm_num : (1 : ℚ) < 10)).mp (small.trans_lt below)
  have guards : ¬ (numeralValue digits = 0 ∨
      power + (digits.dropWhile (· == 0)).length < -400) := by
    rintro (zero | under)
    · exact nonzero zero
    · omega
  have quotientEq : quotient (scaled 10 (numeralValue digits) 1 (-power)).1
      (scaled 10 (numeralValue digits) 1 (-power)).2 = decimal (numeralValue digits) power := by
    rw [quotient_scaled (by norm_num), decimal, quotient, zpow_neg]
    push_cast
    field_simp
  simp only [nearestDecimal, significant, if_neg guards]
  rw [if_neg (by omega)]
  refine nearest_eq (scaled_pos (by norm_num) one_pos _) normal positive ?_ false
  rw [quotientEq]
  exact rounds

/-! ## Positional notation -/

theorem isNumeral_append {front back : List Char}
    (frontInside : ∀ character ∈ front, character.isDigit = true)
    (backInside : ∀ character ∈ back, character.isDigit = true) (nonempty : front ++ back ≠ []) :
    IsNumeral (front ++ back) :=
  ⟨nonempty, fun character member =>
    (List.mem_append.mp member).elim (frontInside character) (backInside character)⟩

theorem replicate_isDigit {count : Nat} : ∀ character ∈ List.replicate count '0',
    character.isDigit = true := by
  intro character member
  rw [List.eq_of_mem_replicate member]
  rfl

/-- Digits on both sides of a point that denote a rational. -/
def Denotes (text : List Char) (value : ℚ) : Prop :=
  ∃ whole fraction, text = whole ++ '.' :: fraction ∧ IsNumeral whole ∧ IsNumeral fraction ∧
    whole.length ≤ 16 ∧ decimal (numeral (whole ++ fraction)) (-(fraction.length : Int)) = value

section Positional

variable {digits : List Char} (isNumeral : IsNumeral digits)
include isNumeral

/-- All digits stand behind the point. -/
theorem denotes_behind (zeros : Nat) :
    Denotes ('0' :: '.' :: (List.replicate zeros '0' ++ digits))
      (decimal (numeral digits) (-(zeros : Int) - digits.length)) := by
  refine ⟨['0'], List.replicate zeros '0' ++ digits, rfl, ⟨by simp, by simp⟩,
    isNumeral_append replicate_isDigit isNumeral.2 (by simp [isNumeral.1]), by simp, ?_⟩
  have allZeros : ['0'] ++ (List.replicate zeros '0' ++ digits) =
      List.replicate (zeros + 1) '0' ++ digits := by
    simp [List.replicate_succ]
  rw [allZeros, numeral_zeros_append, List.length_append, List.length_replicate]
  congr 1
  push_cast
  omega

/-- The point stands between the digits. -/
theorem denotes_between {places : Nat} (positive : 0 < places) (most : places ≤ 16)
    (long : places < digits.length) :
    Denotes (digits.take places ++ '.' :: digits.drop places)
      (decimal (numeral digits) ((places : Int) - digits.length)) := by
  have whole : digits.take places ≠ [] := by
    rw [ne_eq, List.take_eq_nil_iff]
    exact not_or.mpr ⟨by omega, isNumeral.1⟩
  have fraction : digits.drop places ≠ [] := by
    rw [ne_eq, List.drop_eq_nil_iff]
    omega
  refine ⟨digits.take places, digits.drop places, rfl,
    ⟨whole, fun character member => isNumeral.2 character (List.mem_of_mem_take member)⟩,
    ⟨fraction, fun character member => isNumeral.2 character (List.mem_of_mem_drop member)⟩, ?_, ?_⟩
  · rw [List.length_take]
    omega
  · rw [List.take_append_drop, List.length_drop]
    congr 1
    omega

/-- All digits stand before the point, filled up with zeros. -/
theorem denotes_before {zeros : Nat} (most : digits.length + zeros ≤ 16) :
    Denotes (digits ++ List.replicate zeros '0' ++ ['.', '0'])
      (decimal (numeral digits) zeros) := by
  refine ⟨digits ++ List.replicate zeros '0', ['0'], rfl,
    isNumeral_append isNumeral.2 replicate_isDigit (by simp [isNumeral.1]),
    ⟨by simp, by simp⟩, ?_, ?_⟩
  · rw [List.length_append, List.length_replicate]
    exact most
  · have allZeros : digits ++ List.replicate zeros '0' ++ ['0'] =
        digits ++ List.replicate (zeros + 1) '0' := by
      rw [List.replicate_succ', List.append_assoc]
    rw [allZeros, numeral_append_zeros, decimal_shift]
    congr 1
    simp only [List.length_singleton]
    omega

/-- Positional notation is a decimal that denotes the digits with the point where it belongs. -/
theorem denotes_positional {leading : Int} (most : leading < 16) :
    Denotes (positional digits leading) (decimal (numeral digits) (leading + 1 - digits.length)) := by
  unfold positional
  split
  · rename_i negative
    have power : leading + 1 - digits.length =
        -((-leading - 1).toNat : Int) - digits.length := by omega
    rw [power]
    exact denotes_behind isNumeral _
  · rename_i nonnegative
    obtain ⟨places, rfl⟩ := Int.eq_ofNat_of_zero_le (Int.not_lt.mp nonnegative)
    simp only [Int.toNat_natCast]
    rcases Nat.lt_or_ge (places + 1) digits.length with long | short
    · have noZeros : places + 1 - (digits.take (places + 1)).length = 0 := by
        rw [List.length_take]
        omega
      have inside : (digits.drop (places + 1)).isEmpty = false := by simpa using long
      rw [noZeros, inside]
      simpa using denotes_between isNumeral (Nat.succ_pos places) (by omega) long
    · have none : digits.drop (places + 1) = [] := List.drop_eq_nil_iff.mpr short
      have power : (places : Int) + 1 - digits.length = (places + 1 - digits.length : Nat) := by
        omega
      rw [none, List.take_of_length_le short, power]
      simpa using @denotes_before digits isNumeral (places + 1 - digits.length) (by omega)

end Positional

theorem exists_trailing_zeros (digits : List Char) :
    ∃ count, digits = dropTrailingZeros digits ++ List.replicate count '0' := by
  refine ⟨(digits.reverse.takeWhile (· == '0')).length, ?_⟩
  have split := List.takeWhile_append_dropWhile (p := (· == '0')) (l := digits.reverse)
  have zeros : digits.reverse.takeWhile (· == '0') =
      List.replicate (digits.reverse.takeWhile (· == '0')).length '0' := by
    refine List.eq_replicate_iff.mpr ⟨rfl, fun character member => ?_⟩
    simpa using List.mem_takeWhile_imp member
  have reversed := congrArg List.reverse split
  rw [List.reverse_append, List.reverse_reverse] at reversed
  rw [dropTrailingZeros, ← List.reverse_replicate, ← zeros]
  exact reversed.symm

theorem isNumeral_dropTrailingZeros {digits : Nat} (positive : 0 < digits) :
    IsNumeral (dropTrailingZeros (toString digits).toList) := by
  obtain ⟨zeros, split⟩ := exists_trailing_zeros (toString digits).toList
  have value := numeral_toString digits
  rw [split, numeral_append_zeros] at value
  constructor
  · intro empty
    rw [empty] at value
    simp only [numeral, numeralValue, List.map_nil, List.foldl_nil, zero_mul] at value
    omega
  · intro character member
    exact (isNumeral_toString digits).2 character
      (by rw [split]; exact List.mem_append_left _ member)

theorem shortest_pos {mantissa : Nat} {exponent : Int} (normal : IsNormal mantissa exponent)
    (positive : 0 < mantissa) : 0 < (shortest mantissa exponent).1 := by
  have value := (shortest_rounds normal positive).pos positive
  by_contra zero
  rw [Nat.eq_zero_of_not_pos zero, decimal, Nat.cast_zero, zero_mul] at value
  exact lt_irrefl 0 value

/-- The power of ten of the first of some digits. -/
def leadingPlace (digits : Nat) (power : Int) : Int :=
  power + (toString digits).toList.length - 1

theorem pow_leadingPlace_le {digits : Nat} (positive : 0 < digits) (power : Int) :
    (10 : ℚ) ^ leadingPlace digits power ≤ decimal digits power := by
  have first : ((10 ^ ((toString digits).toList.length - 1) : Nat) : ℚ) ≤ digits := by
    exact_mod_cast pow_length_le positive
  have nonempty := List.length_pos_iff.mpr (isNumeral_toString digits).1
  have place : leadingPlace digits power =
      ((toString digits).toList.length - 1 : Nat) + power := by
    simp only [leadingPlace]
    omega
  rw [place, zpow_add₀ (by norm_num), zpow_natCast, decimal]
  push_cast at first
  exact mul_le_mul_of_nonneg_right first (by positivity)

/-- Positional notation of digits without their trailing zeros. -/
theorem denotes_digits {digits : Nat} (positive : 0 < digits) {power : Int}
    (most : leadingPlace digits power < 16) :
    Denotes (positional (dropTrailingZeros (toString digits).toList) (leadingPlace digits power))
      (decimal digits power) := by
  obtain ⟨zeros, split⟩ := exists_trailing_zeros (toString digits).toList
  have denotes := denotes_positional (isNumeral_dropTrailingZeros positive) most
  have value := numeral_toString digits
  have length := congrArg List.length split
  rw [List.length_append, List.length_replicate] at length
  rw [split, numeral_append_zeros] at value
  have same : decimal (numeral (dropTrailingZeros (toString digits).toList))
      (leadingPlace digits power + 1 - (dropTrailingZeros (toString digits).toList).length) =
      decimal digits power := by
    conv_rhs => rw [← value, decimal_shift]
    congr 1
    simp only [leadingPlace]
    omega
  rwa [same] at denotes

/-! ## Texts -/

/-- A text without sign and exponent. -/
def isPositional (text : String) : Bool :=
  text.toList.all fun character => character.isDigit || character == '.'

theorem digitOf_lt {character : Char} (isDigit : character.isDigit = true) :
    digitOf character < 10 := by
  have bounds := bounds_of_isDigit isDigit
  simp only [digitOf]
  omega

/-- A decimal in the interval of a number is read as that number. -/
theorem readFloat?_of_denotes {number : Float} {mantissa : Nat} {exponent : Int}
    (contents : ofFloat number = .finite false mantissa exponent) (positive : 0 < mantissa)
    {text : String} {value : ℚ} (denotes : Denotes text.toList value)
    (rounds : RoundsTo value mantissa exponent) (small : (10 : ℚ) ^ (-400 : Int) ≤ value) :
    readFloat? text = some number := by
  obtain ⟨normal, isNumber⟩ := eq_ofMagnitude contents
  obtain ⟨whole, fraction, split, wholeNumeral, fractionNumeral, shortWhole, rfl⟩ := denotes
  have inside : ∀ digit ∈ (whole ++ fraction).map digitOf, digit < 10 := by
    intro digit member
    obtain ⟨character, among, rfl⟩ := List.mem_map.mp member
    rcases List.mem_append.mp among with inWhole | inFraction
    · exact digitOf_lt (wholeNumeral.2 character inWhole)
    · exact digitOf_lt (fractionNumeral.2 character inFraction)
  rw [readFloat?_of_split split wholeNumeral fractionNumeral, isNumber]
  refine congrArg some (nearestDecimal_eq inside normal positive rounds small ?_)
  rw [List.length_map, List.length_append]
  push_cast
  omega

theorem Denotes.isDecimal {text : List Char} {value : ℚ} (denotes : Denotes text value) :
    IsDecimal text := by
  obtain ⟨whole, fraction, split, wholeNumeral, fractionNumeral, -⟩ := denotes
  exact ⟨whole, fraction, split, wholeNumeral, fractionNumeral⟩

/-- A number without a sign is written positionally between the two bounds of the layout. -/
theorem text_toList {number : Float} {mantissa : Nat} {exponent place : Int}
    (contents : ofFloat number = .finite false mantissa exponent) (positive : 0 < mantissa)
    (isPlace : leadingPlace (shortest mantissa exponent).1 (shortest mantissa exponent).2 = place) :
    (text number).toList =
      if -4 ≤ place ∧ place < 16 then
        positional (dropTrailingZeros (toString (shortest mantissa exponent).1).toList) place
      else scientific standardLayout
        (dropTrailingZeros (toString (shortest mantissa exponent).1).toList) place := by
  subst isPlace
  simp only [text, textIn, contents, if_neg positive.ne', Bool.false_eq_true, if_false,
    String.toList_ofList]
  rfl

/-- A number whose text has neither a sign nor an exponent is read back from it. -/
theorem readFloat?_text {number : Float} (plain : isPositional (text number) = true) :
    IsDecimal (text number).toList ∧ readFloat? (text number) = some number := by
  have inside : ∀ character ∈ (text number).toList,
      character.isDigit = true ∨ character = '.' := by simpa [isPositional] using plain
  cases contents : ofFloat number with
  | notANumber =>
    simp only [text, textIn, contents] at inside
    exact absurd (inside 'n' (by decide)) (by decide)
  | infinite negative =>
    simp only [text, textIn, contents] at inside
    cases negative
    · exact absurd (inside 'i' (by decide)) (by decide)
    · exact absurd (inside '-' (by decide)) (by decide)
  | finite negative mantissa exponent =>
    have unsigned : negative = false := by
      cases negative with
      | false => rfl
      | true =>
        simp only [text, textIn, contents, if_true, String.toList_ofList] at inside
        exact absurd (inside '-' (by simp)) (by decide)
    subst unsigned
    rcases Nat.eq_zero_or_pos mantissa with rfl | positive
    · obtain ⟨normal, isNumber⟩ := eq_ofMagnitude contents
      have isText : text number = "0.0" := by
        simp only [text, textIn, contents]
        rfl
      have isLeast : exponent = leastExponent := normal.leading.resolve_left (by norm_num)
      rw [isText]
      refine ⟨⟨['0'], ['0'], rfl, ⟨by simp, by simp⟩, ⟨by simp, by simp⟩⟩, ?_⟩
      rw [@readFloat?_of_split "0.0" ['0'] ['0'] rfl ⟨by simp, by simp⟩ ⟨by simp, by simp⟩,
        isNumber, isLeast]
      rfl
    · obtain ⟨normal, -⟩ := eq_ofMagnitude contents
      have nonzero := shortest_pos normal positive
      have written := text_toList contents positive rfl
      split at written
      · rename_i layout
        have denotes := denotes_digits nonzero layout.2
        rw [← written] at denotes
        have small : (10 : ℚ) ^ (-400 : Int) ≤ _ :=
          (zpow_le_zpow_right₀ (by norm_num) (by omega)).trans
            (pow_leadingPlace_le nonzero (shortest mantissa exponent).2)
        exact ⟨denotes.isDecimal,
          readFloat?_of_denotes contents positive denotes (shortest_rounds normal positive) small⟩
      · rw [written, scientific] at inside
        exact absurd (inside 'e' (by simp)) (by decide)

end ParaLang.Decimal
