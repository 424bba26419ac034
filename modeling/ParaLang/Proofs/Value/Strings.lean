import ParaLang.Proofs.Token.Tiling
import ParaLang.Proofs.Value.Display

/-! # String literals

A text is displayed as a string literal, which is one token and denotes the text.  A literal need
not be displayed as it is written: tabs may stand bare in it, and a backslash may escape nothing.
The display of what it denotes is a literal of the same text all the same. -/

namespace ParaLang

namespace Value

/-! ## Escapes -/

/-- Some characters in the place of each occurrence of one. -/
def replaced (character : Char) (replacement text : List Char) : List Char :=
  text.flatMap fun other => if other = character then replacement else [other]

/-- Escaping replaces one character after another, the backslash first. -/
theorem escape_successive (text : List Char) :
    text.flatMap escapeCharacter =
      replaced '\t' ['\\', 't'] (replaced '\n' ['\\', 'n'] (replaced '"' ['\\', '"']
        (replaced '\\' ['\\', '\\'] text))) := by
  simp only [replaced, List.flatMap_assoc]
  refine List.flatMap_congr fun character _ => ?_
  -- backslashes are doubled before the later replacements bring in theirs
  unfold escapeCharacter
  split <;> simp_all

/-- The text between the quotes of a literal that is displayed as it is written: every backslash
starts an escape that has a meaning, and no character that has an escape stands bare. -/
inductive Canonical : List Char → Prop where
  | nil : Canonical []
  | escape {mark meaning : Char} {inside : List Char}
      (stands : escapeMeaning? mark = some meaning) (canonical : Canonical inside) :
      Canonical ('\\' :: mark :: inside)
  | plain {character : Char} {inside : List Char} (bare : escapeCharacter character = [character])
      (canonical : Canonical inside) : Canonical (character :: inside)

theorem canonical_escape (text : List Char) : Canonical (text.flatMap escapeCharacter) := by
  induction text with
  | nil => exact .nil
  | cons character text inductionHypothesis =>
    rw [List.flatMap_cons]
    rcases escapeCharacter_cases character with ⟨mark, escaped, -, stands⟩ | ⟨bare, -⟩
    · rw [escaped]
      exact .escape stands inductionHypothesis
    · rw [bare]
      exact .plain bare inductionHypothesis

theorem escapeCharacter_meaning {mark meaning : Char} (stands : escapeMeaning? mark = some meaning) :
    escapeCharacter meaning = ['\\', mark] := by
  unfold escapeMeaning? at stands
  split at stands <;> cases stands <;> rfl

theorem escape_unescape {inside : List Char} (canonical : Canonical inside) :
    (unescape inside).flatMap escapeCharacter = inside := by
  induction canonical with
  | nil => rfl
  | escape stands _ inductionHypothesis =>
    simp [unescape, stands, escapeCharacter_meaning stands, inductionHypothesis]
  | @plain character inside bare _ inductionHypothesis =>
    have noBackslash : character ≠ '\\' := by
      rintro rfl
      cases bare
    rw [unescape_cons noBackslash, List.flatMap_cons, bare, inductionHypothesis]
    rfl

/-- What the escapes of a literal denote is escaped in the same way again if the literal is
canonical, and only then. -/
theorem escape_unescape_iff {inside : List Char} :
    (unescape inside).flatMap escapeCharacter = inside ↔ Canonical inside :=
  ⟨fun same => same ▸ canonical_escape _, escape_unescape⟩

/-! ## Literals -/

theorem display_oneLine (text : String) : '\n' ∉ (string text).display.toList := by
  have inside (character : Char) : '\n' ∉ escapeCharacter character := by
    rcases escapeCharacter_cases character with ⟨mark, escaped, noLineFeed, -⟩ |
      ⟨bare, -, noLineFeed, -⟩
    · simp [escaped, noLineFeed.symm]
    · simp [bare, noLineFeed.symm]
  simp [display_string, inside]

/-- A displayed text is cut into one token and the end of the input behind it. -/
theorem tokenize_display (text : String) :
    Token.tokenize (string text).display =
      .ok [⟨.string, (string text).display, 1, 1⟩,
        ⟨.endOfInput, "", 1, (string text).display.length + 1⟩] := by
  have closed := closeString_escape text.toList []
  have scanned := Lexeme.scan_quoted closed []
  rw [List.append_nil, ← display_string] at scanned
  have oneLine := display_oneLine text
  have sameLine : lineBehind (string text).display.toList = 1 := by
    rw [lineBehind, List.count_eq_zero.mpr oneLine]
  have finish : columnBehind (string text).display.toList = (string text).display.length + 1 := by
    have inLine : ∀ character ∈ (string text).display.toList.reverse, character ≠ '\n' := by
      rintro _ member rfl
      exact oneLine (List.mem_reverse.mp member)
    rw [columnBehind, List.takeWhile_eq_self_iff.mpr (by simpa using inLine), List.length_reverse,
      String.length_toList]
  rw [Token.tokenize, Lexeme.cut_scanned scanned, Lexeme.cut_nil]
  simp only [Result.ok_bind, Result.pure_eq_ok, Token.ofLexemes, Lexeme.kind?, after_start,
    sameLine, finish, String.ofList_toList]
  rfl

/-- A string token of a text has its quotes. -/
theorem exists_inside {source : String} {tokens : List Token}
    (read : Token.tokenize source = .ok tokens) {token : Token} (member : token ∈ tokens)
    (isString : token.kind = .string) :
    ∃ inside, token.literal.toList = '"' :: (inside ++ ['"']) := by
  rcases Token.wellSpelled_of_tokenize read token member with kind | kind | spelled
  · rw [isString] at kind
    cases kind
  · rw [isString] at kind
    cases kind
  · obtain ⟨terminal, spells, isKind⟩ := spelled
    have makes := Lexeme.canMake_of_kind? isKind
    rw [isString] at makes
    cases terminal with
    | string =>
      obtain ⟨closing, quoted, closed⟩ := spells
      have last := (Lexeme.closes_of_closeString closed).getLast?_eq
      obtain ⟨inside, rfl⟩ := List.getLast?_eq_some_iff.mp last
      exact ⟨inside, quoted⟩
    | _ => cases makes

/-- A text is displayed as a literal, which is one token and denotes the text.  The literals that
stand in other texts denote what their display denotes, too; they are displayed as they are written
if what stands between their quotes is canonical. -/
theorem string_literals (text : String) :
    Token.tokenize (string text).display =
      .ok [⟨.string, (string text).display, 1, 1⟩,
        ⟨.endOfInput, "", 1, (string text).display.length + 1⟩] ∧
    ofStringLiteral (string text).display = .string text ∧
    ∀ source tokens, Token.tokenize source = .ok tokens → ∀ token ∈ tokens,
      token.kind = .string →
      let value := ofStringLiteral token.literal
      ofStringLiteral value.display = value ∧
      ∃ inside, token.literal.toList = '"' :: (inside ++ ['"']) ∧
        (value.display = token.literal ↔ Canonical inside) := by
  refine ⟨tokenize_display text, ofStringLiteral_display text, ?_⟩
  intro source tokens read token member isString value
  obtain ⟨inside, quoted⟩ := exists_inside read member isString
  have denotes : value = .string (String.ofList (unescape inside)) := by
    simp [value, ofStringLiteral, quoted]
  refine ⟨?_, inside, quoted, ?_⟩
  · rw [denotes, ofStringLiteral_display]
  · rw [denotes, ← String.toList_inj, display_string, quoted, ← escape_unescape_iff]
    simp

/-- A backslash that escapes nothing stands for itself, and it is displayed as an escape. -/
theorem string_literals_backslash :
    let literal := "\"\\q\""
    let tokens : List Token := [⟨.string, literal, 1, 1⟩, ⟨.endOfInput, "", 1, 5⟩]
    Token.tokenize literal = .ok tokens ∧ (⟨.string, literal, 1, 1⟩ : Token) ∈ tokens ∧
    (ofStringLiteral literal).display = "\"\\\\q\"" ∧
    ofStringLiteral (ofStringLiteral literal).display = ofStringLiteral literal := by
  intro literal tokens
  have characters : literal.toList = ['"', '\\', 'q', '"'] := by decide
  have closes : Lexeme.Closes ['\\', 'q', '"'] := .escape (by decide) .quote
  have scanned : Lexeme.scan ['"', '\\', 'q', '"'] =
      some (.string, ['"', '\\', 'q', '"'], []) :=
    Lexeme.scan_quoted (closes.closeString_eq []) []
  have read : Token.tokenize literal = .ok tokens := by
    rw [Token.tokenize, characters, Lexeme.cut_scanned scanned, Lexeme.cut_nil]
    rfl
  have member : (⟨.string, literal, 1, 1⟩ : Token) ∈ tokens := List.mem_cons_self ..
  have shown : (ofStringLiteral literal).display = "\"\\\\q\"" := by decide
  obtain ⟨-, -, ofTokens⟩ := string_literals "\\q"
  obtain ⟨same, -⟩ := ofTokens literal tokens read _ member rfl
  exact ⟨read, member, shown, same⟩

end Value

end ParaLang
