import ParaLang.Proofs.Token.Scanning

/-! # Scanning a lexeme again

A lexeme that makes a token has one of a few forms.  Text of such a form is recognised wherever it
stands, as long as no character follows that would go on with it. -/

namespace ParaLang.Lexeme

open ParaLang.Decimal (IsNumeral IsDecimal)

/-! ## Forms -/

/-- A letter or an underscore, and more of them or digits. -/
def IsWord (text : List Char) : Prop :=
  ∃ first others, text = first :: others ∧ startsName first = true ∧
    ∀ character ∈ others, continuesName character = true

/-- The form of the lexemes that make tokens other than line ends. -/
def Spells (text : List Char) : Terminal → Prop
  | .name => IsWord text
  | .number => IsNumeral text ∨ IsDecimal text
  | .string => ∃ inside, text = '"' :: inside ∧ closeString inside = some (inside, [])
  | .arrow => text = ['-', '>']
  | .symbol character => text = [character] ∧ isSymbol character = true
  | .comment | .lineEnds | .blanks => False

/-- Characters that a lexeme would take along, or that would make it another one. -/
def goesOn (character : Char) : Terminal → Bool
  | .name => continuesName character
  | .number => character.isDigit || character == '.'
  | .symbol '/' => character == '*' || character == '/'
  | .symbol '-' => character == '>'
  | _ => false

/-- A lexeme ends in front of this text. -/
def EndsBefore (rest : List Char) (terminal : Terminal) : Prop :=
  ∀ character ∈ rest.head?, goesOn character terminal = false

theorem endsBefore_cons {character : Char} {rest : List Char} {terminal : Terminal}
    (ends : goesOn character terminal = false) : EndsBefore (character :: rest) terminal := by
  simpa [EndsBefore] using ends

/-- Every lexeme ends in front of a blank. -/
theorem endsBefore_blank (rest : List Char) (terminal : Terminal) :
    EndsBefore (' ' :: rest) terminal := by
  refine endsBefore_cons ?_
  unfold goesOn
  split <;> rfl

/-- Every lexeme ends in front of a line feed. -/
theorem endsBefore_lineFeed (rest : List Char) (terminal : Terminal) :
    EndsBefore ('\n' :: rest) terminal := by
  refine endsBefore_cons ?_
  unfold goesOn
  split <;> rfl

/-! ## Runs -/

theorem takeRun_append_rest {accepts : Char → Bool} {text rest : List Char}
    (inside : ∀ character ∈ text, accepts character = true)
    (ends : ∀ character ∈ rest.head?, accepts character = false) :
    takeRun accepts (text ++ rest) = (text, rest) := by
  have front : rest.takeWhile accepts = [] := by
    cases rest with
    | nil => rfl
    | cons character rest => simp [ends character rfl]
  have back : rest.dropWhile accepts = rest := by
    cases rest with
    | nil => rfl
    | cons character rest => simp [ends character rfl]
  rw [takeRun, List.takeWhile_append_of_pos inside, List.dropWhile_append_of_pos inside, front,
    back, List.append_nil]

theorem accepts_of_takeRun {accepts : Char → Bool} {source text rest : List Char}
    (taken : takeRun accepts source = (text, rest)) :
    ∀ character ∈ text, accepts character = true := by
  cases taken
  exact fun _ member => List.mem_takeWhile_imp member

/-! ## Names and numbers -/

theorem scan_word {text rest : List Char} (isWord : IsWord text)
    (ends : EndsBefore rest .name) : scan (text ++ rest) = some (.name, text, rest) := by
  obtain ⟨first, others, rfl, starts, inside⟩ := isWord
  exact (Scans.name starts (takeRun_append_rest inside ends)).scan_eq

theorem scan_of_digits {text rest : List Char} (digits : Digits (text ++ rest) text rest)
    {first : Char} {others : List Char} (starts : text = first :: others)
    (isDigit : first.isDigit = true) : scan (text ++ rest) = some (.number, text, rest) := by
  subst starts
  exact (Scans.number isDigit digits).scan_eq

theorem scan_numeral {text rest : List Char} (isNumeral : IsNumeral text)
    (ends : EndsBefore rest .number) : scan (text ++ rest) = some (.number, text, rest) := by
  obtain ⟨first, others, starts, isDigit, -⟩ := isNumeral.exists_cons
  have taken := @takeRun_append_rest Char.isDigit text rest isNumeral.2 fun character member =>
    (Bool.or_eq_false_iff.mp (ends character member)).1
  refine scan_of_digits (.numeral taken ?_) starts isDigit
  rintro digit more rfl
  exact absurd (ends '.' rfl) (by simp [goesOn])

theorem scan_decimal {text rest : List Char} (isDecimal : IsDecimal text)
    (ends : EndsBefore rest .number) : scan (text ++ rest) = some (.number, text, rest) := by
  obtain ⟨whole, fraction, rfl, isWhole, isFraction⟩ := isDecimal
  obtain ⟨first, others, rfl, startsWhole, -⟩ := isWhole.exists_cons
  obtain ⟨digit, more, rfl, isDigit, moreInside⟩ := isFraction.exists_cons
  have wholeTaken := @takeRun_append_rest Char.isDigit (first :: others)
    ('.' :: digit :: (more ++ rest)) isWhole.2 (by simp)
  have fractionTaken := @takeRun_append_rest Char.isDigit more rest moreInside
    fun character member => (Bool.or_eq_false_iff.mp (ends character member)).1
  refine scan_of_digits ?_ rfl startsWhole
  rw [List.append_assoc]
  exact .decimal wholeTaken isDigit fractionTaken

/-- Digits are taken as a numeral or as a decimal. -/
theorem Digits.spells {first : Char} {source text rest : List Char}
    (digits : Digits (first :: source) text rest) (starts : first.isDigit = true) :
    Spells text .number := by
  have numeral {whole behind : List Char}
      (taken : takeRun Char.isDigit (first :: source) = (whole, behind)) : IsNumeral whole := by
    refine ⟨?_, accepts_of_takeRun taken⟩
    have nonempty := takeRun_ne_nil source starts
    rwa [taken] at nonempty
  cases digits with
  | decimal isWhole isDigit isFraction =>
    exact .inr ⟨_, _, rfl, numeral isWhole, List.cons_ne_nil _ _,
      List.forall_mem_cons.mpr ⟨isDigit, accepts_of_takeRun isFraction⟩⟩
  | numeral isWhole => exact .inl (numeral isWhole)

/-! ## Strings -/

theorem closeString_cons {character : Char} (noQuote : character ≠ '"')
    (noLineFeed : character ≠ '\n') (noEscape : character ≠ '\\') (text : List Char) :
    closeString (character :: text) =
      (closeString text).map fun split => (character :: split.1, split.2) := by
  rw [closeString.eq_def]
  split <;> simp_all

/-- What stands behind the opening quote of a string, up to its closing quote. -/
inductive Closes : List Char → Prop where
  | quote : Closes ['"']
  | escape {character : Char} {inside : List Char} (noLineFeed : character ≠ '\n')
      (closes : Closes inside) : Closes ('\\' :: character :: inside)
  | plain {character : Char} {inside : List Char} (noQuote : character ≠ '"')
      (noLineFeed : character ≠ '\n') (noEscape : character ≠ '\\') (closes : Closes inside) :
      Closes (character :: inside)

theorem closes_of_closeString {source inside rest : List Char}
    (closed : closeString source = some (inside, rest)) : Closes inside := by
  induction source using closeString.induct generalizing inside rest with
  | case1 | case3 | case4 | case5 => simp [closeString] at closed
  | case2 source =>
    simp only [closeString, Option.some.injEq, Prod.mk.injEq] at closed
    rw [← closed.1]
    exact .quote
  | case6 character source noLineFeed inductionHypothesis =>
    simp only [closeString, if_neg noLineFeed, Option.map_eq_some_iff, Prod.mk.injEq,
      Prod.exists] at closed
    obtain ⟨text, rest', later, rfl, rfl⟩ := closed
    exact .escape noLineFeed (inductionHypothesis later)
  | case7 character source noQuote noLineFeed noEnd noBackslash inductionHypothesis =>
    have noEscape : character ≠ '\\' := by
      intro isBackslash
      cases source with
      | nil => exact noEnd isBackslash rfl
      | cons next source => exact noBackslash next source isBackslash rfl
    rw [closeString_cons noQuote noLineFeed noEscape, Option.map_eq_some_iff] at closed
    obtain ⟨⟨text, rest'⟩, later, equal⟩ := closed
    cases equal
    exact .plain noQuote noLineFeed noEscape (inductionHypothesis later)

theorem Closes.closeString_eq {inside : List Char} (closes : Closes inside) (rest : List Char) :
    closeString (inside ++ rest) = some (inside, rest) := by
  induction closes with
  | quote => rfl
  | escape noLineFeed _ inductionHypothesis =>
    simp [closeString, if_neg noLineFeed, inductionHypothesis]
  | plain noQuote noLineFeed noEscape _ inductionHypothesis =>
    rw [List.cons_append, closeString_cons noQuote noLineFeed noEscape, inductionHypothesis]
    rfl

/-- The last character of a string is its closing quote. -/
theorem Closes.getLast?_eq {inside : List Char} (closes : Closes inside) :
    inside.getLast? = some '"' := by
  induction closes with
  | quote => rfl
  | escape _ _ inductionHypothesis => simp [List.getLast?_cons, inductionHypothesis]
  | plain _ _ _ _ inductionHypothesis => simp [List.getLast?_cons, inductionHypothesis]

/-- A string closes at the same place whatever follows it. -/
theorem closeString_again {source inside rest : List Char}
    (closed : closeString source = some (inside, rest)) (other : List Char) :
    closeString (inside ++ other) = some (inside, other) :=
  (closes_of_closeString closed).closeString_eq other

theorem scan_quoted {inside : List Char} (closed : closeString inside = some (inside, []))
    (rest : List Char) :
    scan ('"' :: inside ++ rest) = some (.string, '"' :: inside, rest) :=
  (Scans.string (closeString_again closed rest)).scan_eq

/-! ## Comments -/

/-- A comment is closed by the first end mark. -/
theorem exists_body_of_closeComment {source inside rest : List Char}
    (closed : closeComment source = some (inside, rest)) :
    ∃ body, inside = body ++ ['*', '/'] ∧ ¬['*', '/'] <:+: body := by
  induction source using closeComment.induct generalizing inside rest with
  | case1 => cases closed
  | case2 source =>
    cases closed
    exact ⟨[], rfl, by simp⟩
  | case3 character source notClosing inductionHypothesis =>
    have splits := closeComment_append closed
    rw [closeComment.eq_3 _ _ notClosing, Option.map_eq_some_iff] at closed
    obtain ⟨⟨text, remaining⟩, later, equal⟩ := closed
    cases equal
    obtain ⟨body, rfl, first⟩ := inductionHypothesis later
    refine ⟨character :: body, rfl, fun inside => ?_⟩
    rcases List.infix_cons_iff.mp inside with atFront | deeper
    · obtain ⟨isStar, behind⟩ := List.cons_prefix_cons.mp atFront
      obtain ⟨others, rfl⟩ := behind
      exact notClosing _ isStar.symm (List.cons.inj splits).2.symm
    · exact first deeper

theorem closeComment_of_first {body : List Char} (first : ¬['*', '/'] <:+: body)
    (rest : List Char) :
    closeComment (body ++ '*' :: '/' :: rest) = some (body ++ ['*', '/'], rest) := by
  induction body with
  | nil => rfl
  | cons character body inductionHypothesis =>
    have later := inductionHypothesis fun inside =>
      first (inside.trans (List.suffix_cons _ _).isInfix)
    have notClosing :
        ∀ others, character = '*' → body ++ '*' :: '/' :: rest = '/' :: others → False := by
      rintro others rfl isClosing
      cases body with
      | nil => cases isClosing
      | cons next body =>
        obtain rfl := (List.cons.inj isClosing).1
        exact first ⟨[], body, rfl⟩
    rw [List.cons_append, closeComment.eq_3 _ _ notClosing, later]
    rfl

/-- A comment closes at the same place whatever follows it. -/
theorem closeComment_again {source inside rest : List Char}
    (closed : closeComment source = some (inside, rest)) (other : List Char) :
    closeComment (inside ++ other) = some (inside, other) := by
  obtain ⟨body, rfl, first⟩ := exists_body_of_closeComment closed
  simpa using closeComment_of_first first other

/-! ## Symbols -/

/-- The characters that make a longer lexeme of a symbol are those it starts a lexeme with. -/
theorem alone_of_endsBefore {character : Char} (symbol : isSymbol character = true)
    {rest : List Char} (ends : EndsBefore rest (.symbol character)) : Alone character rest := by
  intro next isNext
  rw [Bool.eq_false_iff]
  intro together
  have apart := ends next isNext
  simp only [pairs, Bool.or_eq_true, Bool.and_eq_true, beq_iff_eq] at together
  rcases together with (⟨rfl, rfl | rfl⟩ | ⟨rfl, -⟩) | ⟨rfl, rfl⟩
  · cases apart
  · cases apart
  · cases symbol
  · cases apart

theorem scan_symbol {character : Char} (symbol : isSymbol character = true) {rest : List Char}
    (ends : EndsBefore rest (.symbol character)) :
    scan (character :: rest) = some (.symbol character, [character], rest) :=
  (Scans.symbol symbol (alone_of_endsBefore symbol ends)).scan_eq

/-! ## Lexemes -/

/-- Text of the form of a lexeme is recognised as that lexeme. -/
theorem scan_of_spells {text rest : List Char} {terminal : Terminal}
    (spells : Spells text terminal) (ends : EndsBefore rest terminal) :
    scan (text ++ rest) = some (terminal, text, rest) := by
  cases terminal with
  | name => exact scan_word spells ends
  | number =>
    rcases spells with isNumeral | isDecimal
    · exact scan_numeral isNumeral ends
    · exact scan_decimal isDecimal ends
  | string =>
    obtain ⟨inside, rfl, closed⟩ := spells
    exact scan_quoted closed rest
  | arrow =>
    cases spells
    rfl
  | symbol character =>
    obtain ⟨rfl, symbol⟩ := spells
    exact scan_symbol symbol ends
  | comment | lineEnds | blanks => exact spells.elim

/-- The lexemes that make tokens other than line ends. -/
def MakesToken (terminal : Terminal) : Prop :=
  terminal ≠ .comment ∧ terminal ≠ .blanks ∧ terminal ≠ .lineEnds

/-- The lexemes that make tokens other than line ends have their forms. -/
theorem spells_of_scan {source text rest : List Char} {terminal : Terminal}
    (scanned : scan source = some (terminal, text, rest)) (makes : MakesToken terminal) :
    Spells text terminal := by
  cases scans_of_scan scanned with
  | name starts taken => exact ⟨_, _, rfl, starts, accepts_of_takeRun taken⟩
  | number isDigit digits => exact digits.spells isDigit
  | string closed =>
    have again := closeString_again closed []
    rw [List.append_nil] at again
    exact ⟨_, rfl, again⟩
  | blockComment | lineComment => exact absurd rfl makes.1
  | blanks => exact absurd rfl makes.2.1
  | lineEnds => exact absurd rfl makes.2.2
  | slash => exact ⟨rfl, rfl⟩
  | arrow => rfl
  | symbol symbol => exact ⟨rfl, symbol⟩

end ParaLang.Lexeme
