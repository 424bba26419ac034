import ParaLang.Proofs.Annotations.Renumbering
import ParaLang.Proofs.Annotations.Sources
import ParaLang.Proofs.Decimal.Positional

/-! # Values that are shown

The display of an integer, of a text and of a number without an exponent is a literal of the same
value.  The display of any other value is not. -/

namespace ParaLang

namespace Value

/-- Whether the display of the value of a literal is a literal itself. -/
def showsLiteral : Value → Bool
  | .int _ | .string _ => true
  | .float value => Decimal.isPositional (Decimal.text value)
  | .bool _ | .null => false

/-- The token that the display of a value is read as, if it is a literal. -/
def shownToken (value : Value) : Token where
  kind :=
    match value with
    | .int _ => .int
    | .float _ => .float
    | .string _ => .string
    | .bool _ => .bool
    | .null => .null
  literal := value.display
  line := 0
  column := 0

/-! ## Texts -/

/-- A character is escaped by a mark that stands for it, or it is a plain one. -/
theorem escapeCharacter_cases (character : Char) :
    (∃ mark, escapeCharacter character = ['\\', mark] ∧ mark ≠ '\n' ∧
      escapeMeaning? mark = some character) ∨
    (escapeCharacter character = [character] ∧ character ≠ '"' ∧ character ≠ '\n' ∧
      character ≠ '\\') := by
  unfold escapeCharacter
  split
  · exact .inl ⟨'\\', rfl, by decide, rfl⟩
  · exact .inl ⟨'"', rfl, by decide, rfl⟩
  · exact .inl ⟨'n', rfl, by decide, rfl⟩
  · exact .inl ⟨'t', rfl, by decide, rfl⟩
  · rename_i noBackslash noQuote noLineFeed _
    exact .inr ⟨rfl, noQuote, noLineFeed, noBackslash⟩

theorem closeString_escape (text rest : List Char) :
    Lexeme.closeString (text.flatMap escapeCharacter ++ '"' :: rest) =
      some (text.flatMap escapeCharacter ++ ['"'], rest) := by
  induction text with
  | nil => rfl
  | cons character text inductionHypothesis =>
    rw [List.flatMap_cons, List.append_assoc]
    rcases escapeCharacter_cases character with ⟨mark, escaped, noLineFeed, -⟩ |
      ⟨plain, noQuote, noLineFeed, noBackslash⟩
    · rw [escaped]
      simp only [List.cons_append, List.nil_append, Lexeme.closeString, if_neg noLineFeed,
        inductionHypothesis]
      rfl
    · rw [plain, List.singleton_append, Lexeme.closeString_cons noQuote noLineFeed noBackslash,
        inductionHypothesis]
      rfl

theorem unescape_cons {character : Char} (noBackslash : character ≠ '\\') (text : List Char) :
    unescape (character :: text) = character :: unescape text := by
  rw [unescape.eq_def]
  split
  · rename_i equal
    cases equal
    exact absurd rfl noBackslash
  · rename_i equal
    cases equal
    rfl
  · rename_i equal
    cases equal

theorem unescape_escape (text : List Char) :
    unescape (text.flatMap escapeCharacter) = text := by
  induction text with
  | nil => rfl
  | cons character text inductionHypothesis =>
    rw [List.flatMap_cons]
    rcases escapeCharacter_cases character with ⟨mark, escaped, -, meaning⟩ |
      ⟨plain, -, -, noBackslash⟩
    · rw [escaped]
      simp only [List.cons_append, List.nil_append, unescape, meaning, inductionHypothesis]
    · rw [plain, List.singleton_append, unescape_cons noBackslash, inductionHypothesis]

theorem display_string (value : String) :
    (Value.string value).display.toList =
      '"' :: (value.toList.flatMap escapeCharacter ++ ['"']) := by
  simp [display, escape]

/-- A text is read back from its display. -/
theorem ofStringLiteral_display (value : String) :
    ofStringLiteral (Value.string value).display = .string value := by
  rw [ofStringLiteral, display_string, List.drop_one, List.tail_cons, List.dropLast_concat,
    unescape_escape, String.ofList_toList]

/-! ## Numbers -/

theorem display_int (value : Nat) : (Value.int value).display = toString value := rfl

theorem ofNumberLiteral_int {value : Nat} (fits : value ≤ 2147483647) :
    ofNumberLiteral (Value.int value).display = .ok (.int value) := by
  rw [display_int, ofNumberLiteral_of_isNumeral (Decimal.isNumeral_toString value),
    if_pos (Decimal.length_toString fits), Decimal.numeral_toString, if_pos fits]

theorem ofNumberLiteral_float {value : Float}
    (plain : Decimal.isPositional (Decimal.text value) = true) :
    ofNumberLiteral (Value.float value).display = .ok (.float value) := by
  obtain ⟨isDecimal, read⟩ := Decimal.readFloat?_text plain
  have shown : (Value.float value).display = Decimal.text value := rfl
  rw [shown, ofNumberLiteral, isDecimal.point, read]
  rfl

/-! ## Tokens -/

/-- Integers that literals denote have no sign. -/
def FromLiteral : Value → Prop
  | .int value => 0 ≤ value ∧ value ≤ 2147483647
  | _ => True

section Tokens

variable {value : Value}

/-- The display of a value that is a literal is read as the value. -/
theorem literalValue_shownToken (isLiteral : value.showsLiteral = true)
    (fits : value.FromLiteral) :
    value.shownToken.kind.isLiteral = true ∧
      Annotations.literalValue (.ofToken value.shownToken) = .ok value := by
  have literal : (Annotations.NumberedToken.ofToken value.shownToken).literal = value.display := rfl
  cases value with
  | int value =>
    obtain ⟨value, rfl⟩ := Int.eq_ofNat_of_zero_le fits.1
    have read := @ofNumberLiteral_int value (by have := fits.2; omega)
    have kind : (Annotations.NumberedToken.ofToken (Value.int value).shownToken).kind = .int := rfl
    refine ⟨rfl, ?_⟩
    rw [Annotations.literalValue, kind, literal]
    simp only [read]
  | float value =>
    have kind : (Annotations.NumberedToken.ofToken (Value.float value).shownToken).kind = .float :=
      rfl
    refine ⟨rfl, ?_⟩
    rw [Annotations.literalValue, kind, literal]
    simp only [ofNumberLiteral_float isLiteral]
  | string value =>
    have kind : (Annotations.NumberedToken.ofToken (Value.string value).shownToken).kind =
      .string := rfl
    refine ⟨rfl, ?_⟩
    rw [Annotations.literalValue, kind, literal]
    simp only [ofStringLiteral_display]
  | bool value | null => cases isLiteral

/-- A display that is a literal is one token. -/
theorem wellSpelled_shownToken (isLiteral : value.showsLiteral = true) (fits : value.FromLiteral) :
    value.shownToken.WellSpelled := by
  cases value with
  | int value =>
    obtain ⟨value, rfl⟩ := Int.eq_ofNat_of_zero_le fits.1
    have isNumeral := Decimal.isNumeral_toString value
    refine ⟨.number, .inl isNumeral, ?_⟩
    have noPoint : (Value.int value).shownToken.literal.toList.contains '.' = false :=
      isNumeral.noPoint
    simp only [Lexeme.kind?, noPoint]
    rfl
  | float value =>
    obtain ⟨isDecimal, -⟩ := Decimal.readFloat?_text isLiteral
    refine ⟨.number, .inr isDecimal, ?_⟩
    have point : (Value.float value).shownToken.literal.toList.contains '.' = true :=
      isDecimal.point
    simp only [Lexeme.kind?, point]
    rfl
  | string value =>
    refine ⟨.string, ?_, rfl⟩
    have closed := closeString_escape value.toList []
    exact ⟨_, display_string value, closed⟩
  | bool value | null => cases isLiteral

end Tokens

/-! ## Literals of a text -/

/-- Integers in a text are written without a sign. -/
theorem fromLiteral_of_literalValue {token : Annotations.NumberedToken} {value : Value}
    (spelled : token.token.WellSpelled) (read : Annotations.literalValue token = .ok value) :
    value.FromLiteral := by
  obtain ⟨ifInt, ifFloat⟩ := Token.wellShaped_of_wellSpelled spelled
  simp only [Annotations.literalValue] at read
  split at read
  · rename_i isInt
    have isNumeral : Decimal.IsNumeral token.literal.toList := ifInt isInt
    rw [ofNumberLiteral_of_isNumeral isNumeral] at read
    split at read
    · rename_i number
      cases read
      split at number
      · split at number
        · cases number
          exact ⟨by omega, by omega⟩
        · cases number
      · cases number
    · cases read
    · cases read
  · rename_i isFloat
    have isDecimal : Decimal.IsDecimal token.literal.toList := ifFloat isFloat
    simp only [ofNumberLiteral, isDecimal.point, if_true] at read
    split at read
    · rename_i number
      cases read
      split at number
      · cases number
        trivial
      · cases number
    · cases read
    · cases read
  all_goals
    cases read
    trivial

end Value

end ParaLang
