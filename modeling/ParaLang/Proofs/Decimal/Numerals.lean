import ParaLang.Value

/-! # Reading numerals

Runs of ASCII digits, alone or around a point, are read without loss: the integer or the decimal
that their digits denote. -/

namespace ParaLang

namespace Decimal

open ParaLang.Text (digitValue? isNumberBlank trim)

/-- The value of an ASCII digit. -/
def digitOf (character : Char) : Nat :=
  character.toNat - 48

/-- The natural number that a run of ASCII digits denotes. -/
def numeral (text : List Char) : Nat :=
  numeralValue (text.map digitOf)

/-- A nonempty run of ASCII digits. -/
def IsNumeral (text : List Char) : Prop :=
  text ≠ [] ∧ ∀ character ∈ text, character.isDigit = true

/-- Digits on both sides of a point. -/
def IsDecimal (text : List Char) : Prop :=
  ∃ whole fraction, text = whole ++ '.' :: fraction ∧ IsNumeral whole ∧ IsNumeral fraction

/-- A text that is no number: no decimal if it has a point, and no integer otherwise. -/
def NoNumber (literal : String) : Prop :=
  if literal.toList.contains '.' then readFloat? literal = none
  else takeInteger? (trim literal.toList) = none

/-- The text of an integer with more digits than are read. -/
def Overlong (literal : String) : Prop :=
  literal.toList.contains '.' = false ∧ ∃ negative digits,
    takeInteger? (trim literal.toList) = some (negative, digits) ∧ maxDigits < digits.length

theorem IsNumeral.exists_cons {text : List Char} (isNumeral : IsNumeral text) :
    ∃ digit others, text = digit :: others ∧ digit.isDigit = true ∧
      ∀ character ∈ others, character.isDigit = true := by
  obtain ⟨nonempty, inside⟩ := isNumeral
  obtain ⟨digit, others, rfl⟩ := List.exists_cons_of_ne_nil nonempty
  exact ⟨digit, others, rfl, List.forall_mem_cons.mp inside⟩

/-- A number starts with a digit. -/
theorem exists_digit {text : List Char} (isNumber : IsNumeral text ∨ IsDecimal text) :
    ∃ digit others, text = digit :: others ∧ digit.isDigit = true := by
  rcases isNumber with isNumeral | ⟨whole, fraction, rfl, isNumeral, -⟩
  all_goals
    obtain ⟨digit, others, rfl, isDigit, -⟩ := isNumeral.exists_cons
    exact ⟨digit, _, rfl, isDigit⟩

theorem IsNumeral.noPoint {text : List Char} (isNumeral : IsNumeral text) :
    text.contains '.' = false := by
  rw [List.contains_eq_mem, decide_eq_false_iff_not]
  exact fun member => absurd (isNumeral.2 '.' member) (by decide)

theorem IsDecimal.point {text : List Char} (isDecimal : IsDecimal text) :
    text.contains '.' = true := by
  obtain ⟨whole, fraction, rfl, -⟩ := isDecimal
  simp

/-! ## Digits -/

theorem bounds_of_isDigit {character : Char} (isDigit : character.isDigit = true) :
    48 ≤ character.toNat ∧ character.toNat ≤ 57 := by
  simp only [Char.isDigit, Bool.and_eq_true, decide_eq_true_eq] at isDigit
  exact ⟨isDigit.1, isDigit.2⟩

theorem digitValue?_of_isDigit {character : Char} (isDigit : character.isDigit = true) :
    digitValue? character = some (digitOf character) := by
  obtain ⟨lower, upper⟩ := bounds_of_isDigit isDigit
  have first : (decide (0x30 ≤ character.toNat) && decide (character.toNat ≤ 0x30 + 9)) = true := by
    simp only [Bool.and_eq_true, decide_eq_true_eq]
    omega
  have zeros : Text.decimalZeros = 0x30 :: Text.decimalZeros.tail := rfl
  rw [digitValue?, zeros, List.find?_cons_of_pos (by exact first)]
  rfl

theorem not_blank_of_isDigit {character : Char} (isDigit : character.isDigit = true) :
    isNumberBlank character = false := by
  obtain ⟨lower, upper⟩ := bounds_of_isDigit isDigit
  have noBlank : Text.isBlank character = false := by
    simp only [Text.isBlank, Bool.or_eq_false_iff, Bool.and_eq_false_iff, decide_eq_false_iff_not,
      beq_eq_false_iff_ne, ne_eq]
    omega
  rw [isNumberBlank, noBlank, Bool.false_and]

theorem trim_of_ends {text : List Char}
    (first : ∀ character ∈ text.head?, isNumberBlank character = false)
    (last : ∀ character ∈ text.getLast?, isNumberBlank character = false) : trim text = text := by
  have front : text.dropWhile isNumberBlank = text := by
    cases text with
    | nil => rfl
    | cons character text => simp [first character rfl]
  have back : text.reverse.dropWhile isNumberBlank = text.reverse := by
    cases reversed : text.reverse with
    | nil => rfl
    | cons character rest =>
      have isLast : text.getLast? = some character := by
        rw [List.getLast?_eq_head?_reverse, reversed]
        rfl
      simp [last character isLast]
  rw [trim, front, back, List.reverse_reverse]

theorem takeSign_of_isDigit {character : Char} (isDigit : character.isDigit = true)
    (rest : List Char) : takeSign (character :: rest) = (false, character :: rest) := by
  unfold takeSign
  split
  · rename_i same
    cases same
    exact absurd isDigit (by decide)
  · rename_i same
    cases same
    exact absurd isDigit (by decide)
  · rfl

/-! ## Runs of digits -/

theorem takeDigits_append {digits rest : List Char}
    (inside : ∀ character ∈ digits, character.isDigit = true)
    (ends : ∀ character ∈ rest.head?, digitValue? character = none ∧ character ≠ '_')
    (afterDigit : Bool) :
    takeDigits afterDigit (digits ++ rest) = (digits.map digitOf, rest) := by
  induction digits generalizing afterDigit with
  | nil =>
    cases rest with
    | nil => rfl
    | cons character rest =>
      obtain ⟨noDigit, noUnderscore⟩ := ends character rfl
      simp [takeDigits, noDigit, noUnderscore]
  | cons digit digits inductionHypothesis =>
    have later := inductionHypothesis (fun other member => inside other (by simp [member])) true
    rw [List.cons_append, takeDigits, digitValue?_of_isDigit (inside digit (by simp)), later]
    rfl

theorem takeInteger?_of_isNumeral {text : List Char} (isNumeral : IsNumeral text) :
    takeInteger? (trim text) = some (false, text.map digitOf) := by
  have trimmed : trim text = text := trim_of_ends
    (fun character member =>
      not_blank_of_isDigit (isNumeral.2 character (List.mem_of_mem_head? member)))
    (fun character member =>
      not_blank_of_isDigit (isNumeral.2 character (List.mem_of_mem_getLast? member)))
  have taken := @takeDigits_append text [] isNumeral.2 (by simp) false
  rw [List.append_nil] at taken
  obtain ⟨digit, digits, rfl, isDigit, -⟩ := isNumeral.exists_cons
  rw [trimmed, takeInteger?, takeSign_of_isDigit isDigit]
  simp only [taken, List.map_cons]

/-- A run of digits is read if it is not too long. -/
theorem IsNumeral.isNumber {literal : String} (isNumeral : IsNumeral literal.toList) :
    ¬NoNumber literal := by
  rw [NoNumber, isNumeral.noPoint, takeInteger?_of_isNumeral isNumeral]
  simp

theorem readInt?_of_isNumeral {literal : String} (isNumeral : IsNumeral literal.toList) :
    readInt? literal =
      if literal.toList.length ≤ maxDigits then some (numeral literal.toList : Int) else none := by
  simp only [readInt?, takeInteger?_of_isNumeral isNumeral, List.length_map]
  rfl

/-- An integer is not read because its text is none or has too many digits. -/
theorem readInt?_eq_none_iff {literal : String} : readInt? literal = none ↔
    takeInteger? (trim literal.toList) = none ∨ ∃ negative digits,
      takeInteger? (trim literal.toList) = some (negative, digits) ∧ maxDigits < digits.length := by
  rw [readInt?]
  cases takeInteger? (trim literal.toList) with
  | none => simp
  | some taken =>
    obtain ⟨negative, digits⟩ := taken
    simp only [ite_eq_right_iff, reduceCtorEq, imp_false, Nat.not_le, false_or]
    constructor
    · exact fun long => ⟨negative, digits, rfl, long⟩
    · rintro ⟨_, _, ⟨⟩, long⟩
      exact long

theorem numeral_eq (text : List Char) : numeral text = Nat.ofDigitChars 10 text 0 := by
  simp [numeral, numeralValue, Nat.ofDigitChars_eq_foldl, List.foldl_map, digitOf]

theorem numeral_zeros_append (count : Nat) (text : List Char) :
    numeral (List.replicate count '0' ++ text) = numeral text := by
  rw [numeral_eq, numeral_eq, Nat.ofDigitChars_append, Nat.ofDigitChars_replicate_zero,
    Nat.mul_zero]

/-- A text that starts with a digit is none of the names of special numbers. -/
theorem ne_special {digit : Char} (isDigit : digit.isDigit = true) (rest : List Char)
    {name : String} {first : Char} {others : List Char} (split : name.toList = first :: others)
    (letter : first.isDigit = false) :
    String.ofList ((digit :: rest).map Char.toLower) ≠ name := by
  intro same
  obtain ⟨lower, upper⟩ := bounds_of_isDigit isDigit
  have unchanged : digit.toLower = digit := by
    have noUpper : ¬ (digit.val ≥ 'A'.val ∧ digit.val ≤ 'Z'.val) := by
      rintro ⟨above, -⟩
      have above : 65 ≤ digit.toNat := above
      omega
    exact dif_neg noUpper
  have heads := congrArg String.toList same
  rw [String.toList_ofList, split, List.map_cons, unchanged, List.cons.injEq] at heads
  rw [← heads.1, isDigit] at letter
  cases letter

theorem readFloat?_of_split {literal : String} {whole fraction : List Char}
    (split : literal.toList = whole ++ '.' :: fraction) (wholeNumeral : IsNumeral whole)
    (fractionNumeral : IsNumeral fraction) :
    readFloat? literal =
      some (nearestDecimal false ((whole ++ fraction).map digitOf) (-(fraction.length : Int))) := by
  obtain ⟨first, others, wholeSplit, firstDigit, -⟩ := wholeNumeral.exists_cons
  obtain ⟨next, later, fractionSplit, -⟩ := fractionNumeral.exists_cons
  have trimmed : trim (whole ++ '.' :: fraction) = whole ++ '.' :: fraction := by
    refine trim_of_ends ?_ ?_
    · intro character member
      rw [wholeSplit] at member
      simp only [List.cons_append, List.head?_cons, Option.mem_def, Option.some.injEq] at member
      exact member ▸ not_blank_of_isDigit firstDigit
    · intro character member
      have inFraction : character ∈ fraction := by
        rw [List.getLast?_append, fractionSplit, List.getLast?_cons_cons,
          List.getLast?_eq_some_getLast (List.cons_ne_nil next later)] at member
        rw [fractionSplit]
        simp only [Option.some_or, Option.mem_def, Option.some.injEq] at member
        exact member ▸ List.getLast_mem _
      exact not_blank_of_isDigit (fractionNumeral.2 character inFraction)
  have unsigned : takeSign (whole ++ '.' :: fraction) = (false, whole ++ '.' :: fraction) := by
    rw [wholeSplit]
    exact takeSign_of_isDigit firstDigit _
  have wholeTaken : takeDigits false (whole ++ '.' :: fraction) =
      (whole.map digitOf, '.' :: fraction) :=
    takeDigits_append wholeNumeral.2 (by simp; decide) false
  have fractionTaken : takeDigits false fraction = (fraction.map digitOf, []) := by
    have taken := @takeDigits_append fraction [] fractionNumeral.2 (by simp) false
    rwa [List.append_nil] at taken
  have decimalTaken : takeDecimal? (whole ++ '.' :: fraction) =
      some (whole.map digitOf, fraction.map digitOf, []) := by
    simp [takeDecimal?, wholeTaken, fractionTaken, wholeNumeral.1]
  have special (name : String) {letter : Char} {letters : List Char}
      (spelt : name.toList = letter :: letters) (isLetter : letter.isDigit = false) :
      String.ofList ((whole ++ '.' :: fraction).map Char.toLower) ≠ name := by
    rw [wholeSplit]
    exact ne_special firstDigit _ spelt isLetter
  have infinite : ¬ (String.ofList ((whole ++ '.' :: fraction).map Char.toLower) = "inf" ∨
      String.ofList ((whole ++ '.' :: fraction).map Char.toLower) = "infinity") := by
    rintro (same | same)
    · exact special "inf" rfl rfl same
    · exact special "infinity" rfl rfl same
  rw [readFloat?, split, trimmed, unsigned]
  simp only [if_neg infinite, if_neg (special "nan" rfl rfl), decimalTaken, readExponent?]
  simp

end Decimal

/-! ## Numeric literals -/

namespace Value

open Decimal

variable {literal : String}

/-- A run of digits is read if it is not too long and its value fits into 32 bits. -/
theorem ofNumberLiteral_of_isNumeral (isNumeral : IsNumeral literal.toList) :
    ofNumberLiteral literal =
      if literal.toList.length ≤ maxDigits then
        if numeral literal.toList ≤ 2147483647 then .ok (.int (numeral literal.toList))
        else .error (.outOfRange literal)
      else .error .malformed := by
  have range : inRange (numeral literal.toList) =
      decide (numeral literal.toList ≤ 2147483647) := by
    rw [Bool.eq_iff_iff]
    simp only [inRange, Bool.and_eq_true, decide_eq_true_eq]
    omega
  rw [ofNumberLiteral, isNumeral.noPoint, readInt?_of_isNumeral isNumeral]
  by_cases short : literal.toList.length ≤ maxDigits
  · simp only [Bool.false_eq_true, if_false, if_pos short, range, decide_eq_true_eq]
  · simp only [Bool.false_eq_true, if_false, if_neg short]

theorem ofNumberLiteral_of_isDecimal (isDecimal : IsDecimal literal.toList) :
    ∃ value, ofNumberLiteral literal = .ok (.float value) := by
  have point := isDecimal.point
  obtain ⟨whole, fraction, split, wholeNumeral, fractionNumeral⟩ := isDecimal
  simp only [ofNumberLiteral, point, if_true,
    readFloat?_of_split split wholeNumeral fractionNumeral]
  exact ⟨_, rfl⟩

/-- A literal is malformed if it is no number or an integer of too many digits. -/
theorem ofNumberLiteral_malformed_iff :
    ofNumberLiteral literal = .error .malformed ↔ NoNumber literal ∨ Overlong literal := by
  rw [ofNumberLiteral, NoNumber, Overlong]
  cases literal.toList.contains '.' with
  | true => cases readFloat? literal <;> simp
  | false =>
    have unread := @readInt?_eq_none_iff literal
    simp only [Bool.false_eq_true, if_false, true_and]
    rw [← unread]
    cases readInt? literal with
    | none => simp
    | some value =>
      simp only [reduceCtorEq, iff_false]
      split <;> simp

end Value

end ParaLang
