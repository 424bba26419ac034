import Mathlib
import ParaLang.Proofs.Decimal.Numerals
import ParaLang.Token.Lexer

/-! # What scanning finds

There are a few ways in which a lexeme stands at the front of a text.  `Scans` lists them, with what
each of them says about the text, and scanning finds just the lexemes that stand there.  A property
of lexemes is shown way by way, without a look at the scanner. -/

namespace ParaLang.Lexeme

/-! ## Characters -/

theorem continuesName_of_startsName {character : Char} (starts : startsName character = true) :
    continuesName character = true := by
  simp only [startsName, continuesName, Char.isAlphanum, Bool.or_eq_true] at starts ⊢
  rcases starts with letter | underscore
  · exact .inl (.inl letter)
  · exact .inr underscore

theorem not_startsName_of_isDigit {character : Char} (isDigit : character.isDigit = true) :
    startsName character = false := by
  obtain ⟨lower, upper⟩ := Decimal.bounds_of_isDigit isDigit
  have noUnderscore : character ≠ '_' := by
    rintro rfl
    exact absurd isDigit (by decide)
  have noUpper : character.isUpper = false := by
    simp only [Char.isUpper, decide_eq_false_iff_not]
    rintro ⟨above, -⟩
    have above : 65 ≤ character.toNat := UInt32.le_iff_toNat_le.mp above
    omega
  have noLower : character.isLower = false := by
    simp only [Char.isLower, Bool.and_eq_false_iff, decide_eq_false_iff_not]
    left
    intro above
    have above : 97 ≤ character.toNat := UInt32.le_iff_toNat_le.mp above
    omega
  simp [startsName, Char.isAlpha, noUpper, noLower, noUnderscore]

theorem not_isBlank_of_isSymbol {character : Char} (symbol : isSymbol character = true) :
    ¬isBlank character = true := by
  intro blank
  simp only [isBlank, Bool.or_eq_true, beq_iff_eq] at blank
  rcases blank with (rfl | rfl) | rfl <;> cases symbol

/-- A blank or a symbol belongs to no other class, and opens no string. -/
theorem other_of_mark {character : Char}
    (mark : isBlank character = true ∨ isSymbol character = true) :
    startsName character = false ∧ character.isDigit = false ∧ character ≠ '"' ∧
      character ≠ '\n' := by
  have others : ∀ character ∈ [' ', '\t', '\r', ':', '=', '?', '+', '-', '*', '/', '%', '^', '(',
      ')', '\x7b', '\x7d'], startsName character = false ∧ character.isDigit = false ∧
        character ≠ '"' ∧ character ≠ '\n' := by simp [startsName]
  exact others character (by simpa [isBlank, isSymbol, or_assoc] using mark)

/-- Two characters that start a lexeme together. -/
def pairs (first second : Char) : Bool :=
  (first == '/' && (second == '*' || second == '/')) || (first == '\r' && second == '\n') ||
    (first == '-' && second == '>')

/-- A character starts no lexeme together with the one behind it. -/
def Alone (character : Char) (rest : List Char) : Prop :=
  ∀ next ∈ rest.head?, pairs character next = false

/-- Only the character behind it matters. -/
theorem Alone.of_append {character : Char} {front back : List Char}
    (alone : Alone character (front ++ back)) : Alone character front := by
  cases front with
  | nil => simp [Alone]
  | cons next front => exact alone

theorem exists_pair_of_not_alone {character : Char} {rest : List Char}
    (together : ¬Alone character rest) :
    ∃ next later, rest = next :: later ∧ pairs character next = true := by
  cases rest with
  | nil => simp [Alone] at together
  | cons next later => exact ⟨next, later, rfl, by simpa [Alone] using together⟩

/-! ## Runs -/

theorem takeRun_cons {accepts : Char → Bool} {first : Char} {source : List Char}
    (accepted : accepts first = true) : takeRun accepts (first :: source) =
      (first :: (takeRun accepts source).1, (takeRun accepts source).2) := by
  simp [takeRun, accepted]

theorem takeLineEnds_other {character : Char} (noFeed : character ≠ '\n')
    (noReturn : character ≠ '\r') (rest : List Char) :
    takeLineEnds (character :: rest) = ([], character :: rest) :=
  takeLineEnds.eq_3 _ (fun _ equal => noFeed (List.cons.inj equal).1)
    fun _ equal => noReturn (List.cons.inj equal).1

/-- The digits at the front of a text: a decimal if a point and another digit are behind them, and
a numeral otherwise. -/
inductive Digits : List Char → List Char → List Char → Prop where
  | decimal {source whole more others rest : List Char} {digit : Char}
      (isWhole : takeRun Char.isDigit source = (whole, '.' :: digit :: more))
      (isDigit : digit.isDigit = true) (isFraction : takeRun Char.isDigit more = (others, rest)) :
      Digits source (whole ++ '.' :: digit :: others) rest
  | numeral {source whole rest : List Char} (isWhole : takeRun Char.isDigit source = (whole, rest))
      (noFraction : ∀ digit more, rest = '.' :: digit :: more → digit.isDigit = false) :
      Digits source whole rest

section Digits

variable {source text rest : List Char}

theorem digits_of_takeNumber (taken : takeNumber source = (text, rest)) :
    Digits source text rest := by
  obtain ⟨whole, behind, isWhole⟩ : ∃ whole behind, takeRun Char.isDigit source = (whole, behind) :=
    ⟨_, _, rfl⟩
  simp only [takeNumber, isWhole] at taken
  split at taken
  · split at taken
    · rename_i isDigit
      rw [takeRun_cons isDigit] at taken
      cases taken
      exact .decimal isWhole isDigit rfl
    · rename_i noDigit
      cases taken
      refine .numeral isWhole fun _ _ starts => ?_
      cases starts
      exact Bool.eq_false_iff.mpr noDigit
  · rename_i noPoint
    cases taken
    exact .numeral isWhole fun digit more starts => absurd starts (noPoint digit more)

theorem Digits.takeNumber_eq (digits : Digits source text rest) :
    takeNumber source = (text, rest) := by
  cases digits with
  | decimal isWhole isDigit isFraction =>
    simp [takeNumber, isWhole, isDigit, takeRun_cons, isFraction]
  | numeral isWhole noFraction =>
    simp only [takeNumber, isWhole]
    split
    · rename_i digit more
      simp [noFraction digit more rfl]
    · rfl

theorem exists_digits {first : Char} (source : List Char) (isDigit : first.isDigit = true) :
    ∃ others rest, Digits (first :: source) (first :: others) rest := by
  have splits := takeNumber_append (first :: source)
  obtain ⟨digit, others, starts⟩ := List.exists_cons_of_ne_nil (takeNumber_ne_nil source isDigit)
  rw [starts] at splits
  obtain ⟨rfl, -⟩ := List.cons.inj splits
  exact ⟨others, _, digits_of_takeNumber (Prod.ext starts rfl)⟩

end Digits

/-! ## Ways to stand at the front -/

/-- The lexeme at the front of a text, and the rest behind it. -/
inductive Scans : List Char → Terminal → List Char → List Char → Prop where
  | name {first : Char} {source others rest : List Char} (starts : startsName first = true)
      (taken : takeRun continuesName source = (others, rest)) :
      Scans (first :: source) .name (first :: others) rest
  | number {first : Char} {source others rest : List Char} (isDigit : first.isDigit = true)
      (digits : Digits (first :: source) (first :: others) rest) :
      Scans (first :: source) .number (first :: others) rest
  | string {source inside rest : List Char} (closed : closeString source = some (inside, rest)) :
      Scans ('"' :: source) .string ('"' :: inside) rest
  | blockComment {source inside rest : List Char}
      (closed : closeComment source = some (inside, rest)) :
      Scans ('/' :: '*' :: source) .comment ('/' :: '*' :: inside) rest
  | slash {source : List Char} (unclosed : closeComment source = none) :
      Scans ('/' :: '*' :: source) (.symbol '/') ['/'] ('*' :: source)
  | lineComment {source body rest : List Char} (taken : takeRun (· != '\n') source = (body, rest)) :
      Scans ('/' :: '/' :: source) .comment ('/' :: '/' :: body) rest
  | lineEnds {source text rest : List Char} (taken : takeLineEnds source = (text, rest))
      (nonempty : text ≠ []) : Scans source .lineEnds text rest
  | arrow {rest : List Char} : Scans ('-' :: '>' :: rest) .arrow ['-', '>'] rest
  | blanks {first : Char} {source others rest : List Char} (blank : isBlank first = true)
      (alone : Alone first source) (taken : takeRun isBlank source = (others, rest)) :
      Scans (first :: source) .blanks (first :: others) rest
  | symbol {character : Char} {rest : List Char} (symbol : isSymbol character = true)
      (alone : Alone character rest) :
      Scans (character :: rest) (.symbol character) [character] rest

section Scanning

variable {source text rest : List Char} {terminal : Terminal}

theorem scans_of_scanMark (scanned : scanMark source = some (terminal, text, rest)) :
    Scans source terminal text rest := by
  have nonempty := (scanMark_splits scanned).2
  unfold scanMark at scanned
  split at scanned
  · cases scanned
  · simp only [Option.map_eq_some_iff, Prod.mk.injEq, Prod.exists] at scanned
    obtain ⟨inside, remaining, closed, rfl, rfl, rfl⟩ := scanned
    exact .string closed
  · split at scanned
    · rename_i closed
      cases scanned
      exact .blockComment closed
    · rename_i unclosed
      cases scanned
      exact .slash unclosed
  · cases scanned
    exact .lineComment rfl
  · simp only [Option.some.injEq, Prod.mk.injEq] at scanned
    obtain ⟨rfl, taken⟩ := scanned
    exact .lineEnds taken nonempty
  · simp only [Option.some.injEq, Prod.mk.injEq] at scanned
    obtain ⟨rfl, taken⟩ := scanned
    exact .lineEnds taken nonempty
  · cases scanned
    exact .arrow
  · rename_i character source _ noStar noSlash _ noReturn noArrow
    have alone : Alone character source := by cases source <;> simp_all [Alone, pairs]
    split at scanned
    · rename_i blank
      rw [takeRun_cons blank] at scanned
      cases scanned
      exact .blanks blank alone rfl
    · split at scanned
      · rename_i symbol
        cases scanned
        exact .symbol symbol alone
      · cases scanned

/-- What is found stands at the front. -/
theorem scans_of_scan (scanned : scan source = some (terminal, text, rest)) :
    Scans source terminal text rest := by
  obtain ⟨splits, nonempty⟩ := scan_splits scanned
  unfold scan at scanned
  split at scanned
  · cases scanned
  · rename_i character source
    split at scanned
    · rename_i starts
      rw [takeRun_cons (continuesName_of_startsName starts)] at scanned
      cases scanned
      exact .name starts rfl
    · split at scanned
      · rename_i isDigit
        simp only [Option.some.injEq, Prod.mk.injEq] at scanned
        obtain ⟨rfl, taken⟩ := scanned
        obtain ⟨first, others, rfl⟩ := List.exists_cons_of_ne_nil nonempty
        obtain ⟨rfl, rfl⟩ := List.cons.inj splits
        exact .number isDigit (digits_of_takeNumber taken)
      · exact scans_of_scanMark scanned

theorem scanMark_alone {character : Char} (noQuote : character ≠ '"') (noFeed : character ≠ '\n')
    (alone : Alone character source) : scanMark (character :: source) =
      if isBlank character then some (.blanks, takeRun isBlank (character :: source))
      else if isSymbol character then some (.symbol character, [character], source) else none := by
  rw [scanMark.eq_def]
  split <;> simp_all [Alone, pairs]

/-- A blank and a symbol that stand alone are recognised by themselves. -/
theorem scan_alone {character : Char} (mark : isBlank character = true ∨ isSymbol character = true)
    (alone : Alone character source) : scan (character :: source) =
      if isBlank character then some (.blanks, takeRun isBlank (character :: source))
      else some (.symbol character, [character], source) := by
  obtain ⟨noName, noDigit, noQuote, noFeed⟩ := other_of_mark mark
  have byMark : scan (character :: source) = scanMark (character :: source) := by
    simp [scan, noName, noDigit]
  rw [byMark, scanMark_alone noQuote noFeed alone]
  rcases mark with blank | symbol
  · rw [if_pos blank, if_pos blank]
  · rw [if_pos symbol]

theorem scan_lineEnds (taken : takeLineEnds source = (text, rest)) (nonempty : text ≠ []) :
    scan source = some (.lineEnds, text, rest) := by
  unfold takeLineEnds at taken
  split at taken
  · rw [← taken]
    simp [scan, scanMark, startsName, takeLineEnds]
  · rw [← taken]
    simp [scan, scanMark, startsName, takeLineEnds]
  · cases taken
    exact absurd rfl nonempty

/-- What stands at the front is found. -/
theorem Scans.scan_eq (scans : Scans source terminal text rest) :
    scan source = some (terminal, text, rest) := by
  cases scans with
  | name starts taken =>
    rw [scan, if_pos starts, takeRun_cons (continuesName_of_startsName starts), taken]
  | number isDigit digits =>
    rw [scan, if_neg (by simp [not_startsName_of_isDigit isDigit]), if_pos isDigit,
      digits.takeNumber_eq]
  | string closed => simp [scan, scanMark, startsName, closed]
  | blockComment closed => simp [scan, scanMark, startsName, closed]
  | slash unclosed => simp [scan, scanMark, startsName, unclosed]
  | lineComment taken => simp [scan, scanMark, startsName, takeRun_cons, taken]
  | lineEnds taken nonempty => exact scan_lineEnds taken nonempty
  | arrow => rfl
  | blanks blank alone taken =>
    rw [scan_alone (.inl blank) alone, if_pos blank, takeRun_cons blank, taken]
  | symbol symbol alone =>
    rw [scan_alone (.inr symbol) alone, if_neg (not_isBlank_of_isSymbol symbol)]

/-- Two characters that belong together start a lexeme, closed or not. -/
theorem exists_scans_of_pairs {first second : Char} (together : pairs first second = true)
    (source : List Char) :
    ∃ terminal text rest, Scans (first :: second :: source) terminal text rest := by
  simp only [pairs, Bool.or_eq_true, Bool.and_eq_true, beq_iff_eq] at together
  rcases together with (⟨rfl, rfl | rfl⟩ | ⟨rfl, rfl⟩) | ⟨rfl, rfl⟩
  · cases closed : closeComment source with
    | none => exact ⟨_, _, _, .slash closed⟩
    | some split => exact ⟨_, _, _, .blockComment closed⟩
  · exact ⟨_, _, _, .lineComment rfl⟩
  · exact ⟨_, _, _, .lineEnds rfl (List.cons_ne_nil _ _)⟩
  · exact ⟨_, _, _, .arrow⟩

end Scanning

end ParaLang.Lexeme
