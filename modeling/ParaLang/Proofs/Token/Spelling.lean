import ParaLang.Proofs.Result
import ParaLang.Proofs.Token.Rescanning

/-! # Writing tokens

A line of tokens can be written with a blank after each of them, where a name may touch the arrow
after it and a colon the type.  Reading such lines gives the tokens back, with a `newline` token
for each line end. -/

namespace ParaLang

namespace Lexeme

/-! ## Ends of lexemes -/

theorem not_blank_of_continuesName {character : Char}
    (continues : continuesName character = true) : Text.isBlank character = false := by
  have bounds : 48 ≤ character.toNat ∧ character.toNat ≤ 122 := by
    simp only [continuesName, Char.isAlphanum, Char.isAlpha, Char.isUpper, Char.isLower,
      Char.isDigit, Bool.or_eq_true, Bool.and_eq_true, decide_eq_true_eq,
      UInt32.le_iff_toNat_le, ge_iff_le, beq_iff_eq] at continues
    change (((65 ≤ character.toNat ∧ character.toNat ≤ 90) ∨
      (97 ≤ character.toNat ∧ character.toNat ≤ 122)) ∨
      (48 ≤ character.toNat ∧ character.toNat ≤ 57)) ∨ character = '_' at continues
    rcases continues with ((upper | lower) | digit) | rfl
    · omega
    · omega
    · omega
    · decide
  simp only [Text.isBlank, Bool.or_eq_false_iff, Bool.and_eq_false_iff, decide_eq_false_iff_not,
    beq_eq_false_iff_ne, ne_eq]
  omega

theorem continuesName_of_isDigit {character : Char} (isDigit : character.isDigit = true) :
    continuesName character = true := by
  simp [continuesName, Char.isAlphanum, isDigit]

theorem not_blank_of_isSymbol {character : Char} (symbol : isSymbol character = true) :
    Text.isBlank character = false ∧ isBlank character = false ∧ character ≠ '\n' := by
  have possible : character ∈ [':', '=', '?', '+', '-', '*', '/', '%', '^', '(', ')', '\x7b',
      '\x7d'] := by simpa [isSymbol] using symbol
  simp only [List.mem_cons, List.not_mem_nil, or_false] at possible
  rcases possible with rfl | rfl | rfl | rfl | rfl | rfl | rfl | rfl | rfl | rfl | rfl | rfl | rfl
  all_goals exact ⟨rfl, rfl, by decide⟩

/-- A lexeme that makes a token does not end with a blank. -/
theorem last_of_spells {text : List Char} {terminal : Terminal} (spells : Spells text terminal) :
    ∃ last, text.getLast? = some last ∧ Text.isBlank last = false := by
  have ofRun {text : List Char} (nonempty : text ≠ [])
      (inside : ∀ character ∈ text, continuesName character = true) :
      ∃ last, text.getLast? = some last ∧ Text.isBlank last = false :=
    ⟨_, List.getLast?_eq_some_getLast nonempty,
      not_blank_of_continuesName (inside _ (List.getLast_mem nonempty))⟩
  cases terminal with
  | name =>
    obtain ⟨first, others, rfl, starts, inside⟩ := spells
    refine ofRun (List.cons_ne_nil _ _) fun character member => ?_
    rcases List.mem_cons.mp member with rfl | member
    · exact continuesName_of_startsName starts
    · exact inside character member
  | number =>
    rcases spells with ⟨nonempty, inside⟩ | ⟨whole, fraction, rfl, -, nonempty, inside⟩
    · exact ofRun nonempty fun character member => continuesName_of_isDigit (inside character member)
    · obtain ⟨last, isLast, inked⟩ := ofRun nonempty fun character member =>
        continuesName_of_isDigit (inside character member)
      refine ⟨last, ?_, inked⟩
      rw [List.getLast?_append, List.getLast?_cons, isLast]
      rfl
  | string =>
    obtain ⟨inside, rfl, closed⟩ := spells
    refine ⟨'"', ?_, rfl⟩
    rw [List.getLast?_cons, (closes_of_closeString closed).getLast?_eq]
    rfl
  | arrow =>
    cases spells
    exact ⟨'>', rfl, rfl⟩
  | symbol character =>
    obtain ⟨rfl, symbol⟩ := spells
    exact ⟨character, rfl, (not_blank_of_isSymbol symbol).1⟩
  | comment | lineEnds | blanks => exact spells.elim

/-- Characters that neither blanks nor line ends start with. -/
def isInk (character : Char) : Bool :=
  !isBlank character && character != '\n'

theorem not_blank_of_isInk {character : Char} (inked : isInk character = true) :
    isBlank character = false := by
  simpa using (Bool.and_eq_true_iff.mp inked).1

theorem noLineEnd_of_isInk {character : Char} (inked : isInk character = true) :
    character ≠ '\n' ∧ character ≠ '\r' := by
  constructor <;> rintro rfl <;> exact absurd inked (by decide)

theorem isInk_of_continuesName {character : Char} (continues : continuesName character = true) :
    isInk character = true := by
  simp only [isInk, isBlank, Bool.and_eq_true, Bool.not_eq_true', Bool.or_eq_false_iff,
    beq_eq_false_iff_ne, bne_iff_ne, ne_eq]
  refine ⟨⟨⟨?_, ?_⟩, ?_⟩, ?_⟩ <;> rintro rfl <;> exact absurd continues (by decide)

/-- A lexeme that makes a token starts with ink. -/
theorem first_of_spells {text : List Char} {terminal : Terminal} (spells : Spells text terminal) :
    ∃ first others, text = first :: others ∧ isInk first = true := by
  cases terminal with
  | name =>
    obtain ⟨first, others, rfl, starts, -⟩ := spells
    exact ⟨first, others, rfl, isInk_of_continuesName (continuesName_of_startsName starts)⟩
  | number =>
    obtain ⟨first, others, rfl, isDigit⟩ := Decimal.exists_digit spells
    exact ⟨first, others, rfl, isInk_of_continuesName (continuesName_of_isDigit isDigit)⟩
  | string =>
    obtain ⟨inside, rfl, -⟩ := spells
    exact ⟨'"', inside, rfl, rfl⟩
  | arrow =>
    cases spells
    exact ⟨'-', ['>'], rfl, rfl⟩
  | symbol character =>
    obtain ⟨rfl, symbol⟩ := spells
    obtain ⟨-, noBlank, noLineFeed⟩ := not_blank_of_isSymbol symbol
    exact ⟨character, [], rfl, by simp [isInk, noBlank, noLineFeed]⟩
  | comment | lineEnds | blanks => exact spells.elim

/-! ## Kinds of tokens -/

/-- Whether a lexeme of some terminal can make a token of some kind. -/
def canMake : Terminal → TokenKind → Bool
  | .name, kind =>
    kind.isModifier || [TokenKind.identifier, .typeName, .bool, .null].contains kind
  | .number, kind => [TokenKind.int, .float].contains kind
  | .symbol _, kind =>
    match kind with
    | .identifier | .typeName | .bool | .null | .int | .float | .string | .newline
    | .endOfInput => false
    | _ => !kind.isModifier
  | .string, kind => kind == .string
  | .arrow, kind => kind == .arrow
  | .lineEnds, kind => kind == .newline
  | .comment, _ | .blanks, _ => false

theorem canMake_of_kind? {lexeme : Lexeme} {kind : TokenKind} (isKind : lexeme.kind? = some kind) :
    canMake lexeme.terminal kind = true := by
  unfold kind? at isKind
  cases terminal : lexeme.terminal <;> rw [terminal] at isKind <;> cases isKind
  case name =>
    unfold TokenKind.ofWord
    split <;> rfl
  case number => split <;> rfl
  case symbol =>
    unfold TokenKind.ofSymbol
    split <;> rfl
  all_goals rfl

/-! ## Cutting -/

theorem cut_scanned {source text rest : List Char} {terminal : Terminal}
    (scanned : scan source = some (terminal, text, rest)) (position : Position) :
    cut position source = do
      let later ← cut (position.after text) rest
      return ⟨terminal, text, position⟩ :: later := by
  rw [cut]
  split
  · rename_i found
    rw [scanned] at found
    cases found
    rfl
  · rename_i found
    rw [scanned] at found
    cases found

theorem cut_nil (position : Position) : cut position [] = .ok [] := by
  rw [cut]
  rfl

theorem cut_unscanned {character : Char} {source : List Char}
    (unscanned : scan (character :: source) = none) (position : Position) :
    cut position (character :: source) =
      fail (.unexpectedCharacter character) (some position.line) (some position.column) := by
  rw [cut]
  split
  · rename_i scanned
    rw [unscanned] at scanned
    cases scanned
  · rfl

/-- A text from some position on and the lexemes that it is cut into. -/
inductive Cuts : Position → List Char → List Lexeme → Prop where
  | nil {position : Position} : Cuts position [] []
  | cons {position : Position} {source text rest : List Char} {terminal : Terminal}
      {later : List Lexeme} (scanned : scan source = some (terminal, text, rest))
      (cuts : Cuts (position.after text) rest later) :
      Cuts position source (⟨terminal, text, position⟩ :: later)

/-- A text from some position on and the failure at its first character that starts no lexeme. -/
inductive Halts : Position → List Char → Failure → Prop where
  | here {position : Position} {character : Char} {source : List Char}
      (unscanned : scan (character :: source) = none) :
      Halts position (character :: source) (.diagnostic
        ⟨.unexpectedCharacter character, some position.line, some position.column, none⟩)
  | later {position : Position} {source text rest : List Char} {terminal : Terminal}
      {failure : Failure} (scanned : scan source = some (terminal, text, rest))
      (halts : Halts (position.after text) rest failure) : Halts position source failure

section Cuts

variable {position : Position} {source : List Char} {lexemes : List Lexeme}

theorem cuts_of_cut (isCut : cut position source = .ok lexemes) :
    Cuts position source lexemes := by
  induction position, source using cut.induct generalizing lexemes with
  | case1 position source terminal text rest scanned inductionHypothesis =>
    rw [cut_scanned scanned, Result.bind_eq_ok_iff] at isCut
    obtain ⟨later, laterCut, equal⟩ := isCut
    cases equal
    exact .cons scanned (inductionHypothesis laterCut)
  | case2 position unscanned =>
    rw [cut_nil] at isCut
    cases isCut
    exact .nil
  | case3 position character source unscanned =>
    rw [cut_unscanned unscanned] at isCut
    cases isCut

theorem halts_of_cut {failure : Failure} (fails : cut position source = .error failure) :
    Halts position source failure := by
  induction position, source using cut.induct with
  | case1 position source terminal text rest scanned inductionHypothesis =>
    rw [cut_scanned scanned] at fails
    cases laterCut : cut (position.after text) rest with
    | ok later => simp [laterCut] at fails
    | error other =>
      rw [laterCut] at fails
      cases fails
      exact .later scanned (inductionHypothesis laterCut)
  | case2 position unscanned =>
    rw [cut_nil] at fails
    cases fails
  | case3 position character source unscanned =>
    rw [cut_unscanned unscanned] at fails
    cases fails
    exact .here unscanned

theorem Cuts.cut_eq (cuts : Cuts position source lexemes) : cut position source = .ok lexemes := by
  induction cuts with
  | nil => exact cut_nil _
  | cons scanned _ inductionHypothesis =>
    rw [cut_scanned scanned, inductionHypothesis]
    rfl

/-- The first lexeme is the one that is scanned. -/
theorem Cuts.of_scanned {text rest : List Char} {terminal : Terminal}
    (cuts : Cuts position source lexemes) (scanned : scan source = some (terminal, text, rest)) :
    ∃ later, lexemes = ⟨terminal, text, position⟩ :: later ∧
      Cuts (position.after text) rest later := by
  cases cuts with
  | nil => cases scanned
  | cons other later =>
    rw [scanned] at other
    cases other
    exact ⟨_, rfl, later⟩

end Cuts

/-- Cuts a text into at most as many lexemes as given.  It recurses on their number, so that it can
be evaluated on a given text. -/
def cutWithin? : Nat → Position → List Char → Option (List Lexeme)
  | _, _, [] => some []
  | 0, _, _ :: _ => none
  | count + 1, position, source@(_ :: _) => do
    let (terminal, text, rest) ← scan source
    return ⟨terminal, text, position⟩ :: (← cutWithin? count (position.after text) rest)

theorem cuts_of_cutWithin? {count : Nat} {position : Position} {source : List Char}
    {lexemes : List Lexeme} (isCut : cutWithin? count position source = some lexemes) :
    Cuts position source lexemes := by
  induction count, position, source using cutWithin?.induct generalizing lexemes with
  | case1 =>
    rw [cutWithin?, Option.some.injEq] at isCut
    exact isCut ▸ .nil
  | case2 => cases isCut
  | case3 count position character source inductionHypothesis =>
    simp only [cutWithin?, Option.bind_eq_bind, Option.bind_eq_some_iff] at isCut
    obtain ⟨⟨terminal, text, rest⟩, scanned, later, laterCut, made⟩ := isCut
    cases made
    exact .cons scanned (inductionHypothesis text rest laterCut)

end Lexeme

namespace Token

/-- A text of few lexemes has the tokens that these are found to make. -/
theorem tokenize_of_cutWithin? {source : String} {tokens : List Token} (count : Nat)
    (made : (Lexeme.cutWithin? count .start source.toList).map (ofLexemes true .start) =
      some tokens) : tokenize source = .ok tokens := by
  obtain ⟨lexemes, isCut, rfl⟩ := Option.map_eq_some_iff.mp made
  rw [tokenize, (Lexeme.cuts_of_cutWithin? isCut).cut_eq]
  rfl

open Lexeme (Spells EndsBefore scan isInk Cuts)

/-- A token without its place. -/
def unplaced (token : Token) : Token :=
  { token with line := 0, column := 0 }

/-- The text of a token is that of a lexeme which makes a token of its kind. -/
def WellSpelled (token : Token) : Prop :=
  ∃ terminal, Spells token.literal.toList terminal ∧
    Lexeme.kind? ⟨terminal, token.literal.toList, .start⟩ = some token.kind

/-! ## Tokens of texts -/

theorem kind?_ne_newline {text : List Char} {terminal : Terminal} (spells : Spells text terminal)
    (position : Position) : Lexeme.kind? ⟨terminal, text, position⟩ ≠ some .newline := by
  intro isNewline
  have makes := Lexeme.canMake_of_kind? isNewline
  cases terminal with
  | lineEnds => exact spells.elim
  | _ => cases makes

/-- The tokens that are read from a text, up to places; `broken` tells that it stands after a line
end or at the start. -/
def Lexes (broken : Bool) (source : List Char) (tokens : List Token) : Prop :=
  ∀ position finish, ∃ lexemes, Cuts position source lexemes ∧
    (ofLexemes broken finish lexemes).map unplaced = tokens

section Lexes

variable {broken : Bool} {rest : List Char} {tokens : List Token}

theorem lexes_nil (broken : Bool) : Lexes broken [] [⟨.endOfInput, "", 0, 0⟩] :=
  fun _ _ => ⟨[], .nil, rfl⟩

theorem lexes_token {text : List Char} {terminal : Terminal} {kind : TokenKind}
    (spells : Spells text terminal)
    (isKind : Lexeme.kind? ⟨terminal, text, .start⟩ = some kind)
    (ends : EndsBefore rest terminal) (lexes : Lexes false rest tokens) :
    Lexes broken (text ++ rest) (⟨kind, String.ofList text, 0, 0⟩ :: tokens) := by
  intro position finish
  obtain ⟨lexemes, cuts, rfl⟩ := lexes (position.after text) (position.after text)
  refine ⟨⟨terminal, text, position⟩ :: lexemes,
    .cons (Lexeme.scan_of_spells spells ends) cuts, ?_⟩
  have noNewline := kind?_ne_newline spells position
  have sameKind : Lexeme.kind? ⟨terminal, text, position⟩ = some kind := isKind
  rw [sameKind] at noNewline
  rw [ofLexemes, sameKind]
  split
  · rename_i equal
    cases equal
  · rename_i equal
    exact absurd equal noNewline
  · rename_i equal
    cases equal
    rfl

theorem lexes_blank (ends : ∀ character ∈ rest.head?, Lexeme.isBlank character = false)
    (lexes : Lexes broken rest tokens) : Lexes broken (' ' :: rest) tokens := by
  intro position finish
  have taken := @Lexeme.takeRun_append_rest Lexeme.isBlank [] rest (by simp) ends
  have scans : Lexeme.Scans (' ' :: rest) .blanks [' '] rest := .blanks rfl (fun _ _ => rfl) taken
  obtain ⟨lexemes, cuts, rfl⟩ := lexes (position.after [' ']) finish
  exact ⟨⟨.blanks, [' '], position⟩ :: lexemes, .cons scans.scan_eq cuts, rfl⟩

theorem lexes_lineFeed (ends : ∀ character ∈ rest.head?, character ≠ '\n' ∧ character ≠ '\r')
    (lexes : Lexes true rest tokens) :
    Lexes false ('\n' :: rest) (⟨.newline, "\n", 0, 0⟩ :: tokens) := by
  intro position finish
  have stops : Lexeme.takeLineEnds rest = ([], rest) := by
    cases rest with
    | nil => rfl
    | cons character rest =>
      obtain ⟨noFeed, noReturn⟩ := ends character rfl
      exact Lexeme.takeLineEnds_other noFeed noReturn rest
  have taken : Lexeme.takeLineEnds ('\n' :: rest) = (['\n'], rest) := by
    rw [Lexeme.takeLineEnds, stops]
  have scanned := Lexeme.scan_lineEnds taken (List.cons_ne_nil _ _)
  obtain ⟨lexemes, cuts, rfl⟩ := lexes (position.after ['\n']) finish
  exact ⟨⟨.lineEnds, ['\n'], position⟩ :: lexemes, .cons scanned cuts, rfl⟩

end Lexes

/-! ## Lines of tokens -/

def arrow : Token := ⟨.arrow, "->", 0, 0⟩

def colon : Token := ⟨.colon, ":", 0, 0⟩

/-- The lexeme of a token ends in front of some text. -/
def SpelledBefore (token : Token) (text : List Char) : Prop :=
  ∃ terminal, Spells token.literal.toList terminal ∧
    Lexeme.kind? ⟨terminal, token.literal.toList, .start⟩ = some token.kind ∧
    EndsBefore text terminal

theorem SpelledBefore.wellSpelled {token : Token} {text : List Char}
    (spelled : SpelledBefore token text) : WellSpelled token :=
  let ⟨terminal, spells, isKind, _⟩ := spelled
  ⟨terminal, spells, isKind⟩

/-- Only the first character after a lexeme matters. -/
theorem SpelledBefore.of_head {token : Token} {text other : List Char}
    (spelled : SpelledBefore token text) (same : other.head? = text.head?) :
    SpelledBefore token other := by
  obtain ⟨terminal, spells, isKind, ends⟩ := spelled
  refine ⟨terminal, spells, isKind, ?_⟩
  rwa [EndsBefore, same]

/-- Some tokens and a text that writes them. -/
inductive Written : List Token → List Char → Prop where
  | nil : Written [] []
  | apart {token tokens text} : WellSpelled token → Written tokens text →
      Written (token :: tokens) (token.literal.toList ++ ' ' :: text)
  | touching {token next tokens text} : SpelledBefore token text →
      Written (next :: tokens) text →
      Written (token :: next :: tokens) (token.literal.toList ++ text)

theorem terminal_of_identifier {text : List Char} {terminal : Terminal} {position : Position}
    (isName : Lexeme.kind? ⟨terminal, text, position⟩ = some .identifier) : terminal = .name := by
  have makes := Lexeme.canMake_of_kind? isName
  cases terminal with
  | name => rfl
  | _ => cases makes

namespace Written

variable {tokens others : List Token} {text more : List Char}

/-- A name may touch the arrow after it. -/
theorem link {name : Token} (spelled : WellSpelled name) (isName : name.kind = .identifier)
    (written : Written tokens text) :
    Written (name :: arrow :: tokens) (name.literal.toList ++ '-' :: '>' :: ' ' :: text) := by
  obtain ⟨terminal, spells, isKind⟩ := spelled
  have isIdentifier := isKind
  rw [isName] at isIdentifier
  obtain rfl := terminal_of_identifier isIdentifier
  have spelledArrow : WellSpelled arrow := ⟨.arrow, rfl, rfl⟩
  exact .touching ⟨.name, spells, isKind, Lexeme.endsBefore_cons rfl⟩
    (.apart spelledArrow written)

/-- A colon may touch the type after it. -/
theorem type {type : Token} (spelled : WellSpelled type) (written : Written tokens text) :
    Written (colon :: type :: tokens) (':' :: (type.literal.toList ++ ' ' :: text)) :=
  .touching ⟨.symbol ':', ⟨rfl, rfl⟩, rfl, fun _ _ => rfl⟩ (.apart spelled written)

/-- The text of some tokens ends with a blank, and with just one. -/
theorem text_eq (written : Written tokens text) (nonempty : tokens ≠ []) :
    ∃ before last, text = before ++ [last, ' '] ∧ Text.isBlank last = false := by
  induction written with
  | nil => exact absurd rfl nonempty
  | @apart token tokens text spelled written inductionHypothesis =>
    cases tokens with
    | nil =>
      cases written
      obtain ⟨terminal, spells, -⟩ := spelled
      obtain ⟨last, isLast, noBlank⟩ := Lexeme.last_of_spells spells
      obtain ⟨before, split⟩ := List.getLast?_eq_some_iff.mp isLast
      exact ⟨before, last, by simp [split], noBlank⟩
    | cons next tokens =>
      obtain ⟨before, last, rfl, noBlank⟩ := inductionHypothesis (List.cons_ne_nil _ _)
      exact ⟨token.literal.toList ++ ' ' :: before, last, by simp, noBlank⟩
  | @touching token next tokens text spelled written inductionHypothesis =>
    obtain ⟨before, last, rfl, noBlank⟩ := inductionHypothesis (List.cons_ne_nil _ _)
    exact ⟨token.literal.toList ++ before, last, by simp, noBlank⟩

/-- The text of some tokens starts as it does without its last blank. -/
theorem head?_eq (written : Written tokens text) (nonempty : tokens ≠ []) (rest : List Char) :
    (text ++ rest).head? = text.head? ∧ (text.dropLast ++ rest).head? = text.head? := by
  obtain ⟨before, last, rfl, -⟩ := written.text_eq nonempty
  cases before with
  | nil => simp
  | cons first before => simp [List.dropLast_cons_of_ne_nil]

theorem append (written : Written tokens text) (later : Written others more) :
    Written (tokens ++ others) (text ++ more) := by
  induction written with
  | nil => exact later
  | apart spelled _ inductionHypothesis => simpa using Written.apart spelled inductionHypothesis
  | touching spelled written inductionHypothesis =>
    rw [List.append_assoc]
    have same := (written.head?_eq (List.cons_ne_nil _ _) more).1
    exact .touching (spelled.of_head same) inductionHypothesis

theorem first_eq (written : Written tokens text) (nonempty : tokens ≠ []) :
    ∃ first others, text.dropLast = first :: others ∧ isInk first = true := by
  have ofToken {token : Token} (spelled : WellSpelled token) {text : List Char}
      (goesOn : text ≠ []) : ∃ first others,
        (token.literal.toList ++ text).dropLast = first :: others ∧ isInk first = true := by
    obtain ⟨terminal, spells, -⟩ := spelled
    obtain ⟨first, others, split, inked⟩ := Lexeme.first_of_spells spells
    rw [split, List.dropLast_append_of_ne_nil goesOn]
    exact ⟨first, _, rfl, inked⟩
  cases written with
  | nil => exact absurd rfl nonempty
  | apart spelled _ => exact ofToken spelled (List.cons_ne_nil _ _)
  | touching spelled written =>
    obtain ⟨before, last, rfl, -⟩ := written.text_eq (List.cons_ne_nil _ _)
    exact ofToken spelled.wellSpelled (by simp)

end Written

/-- What a blank at the end of a line gives way to. -/
theorem endsBefore_gap (text rest : List Char) (terminal : Terminal) :
    EndsBefore ((' ' :: text).dropLast ++ '\n' :: rest) terminal := by
  cases text with
  | nil => exact Lexeme.endsBefore_lineFeed rest terminal
  | cons first text =>
    rw [List.dropLast_cons_of_ne_nil (List.cons_ne_nil _ _)]
    exact Lexeme.endsBefore_blank _ terminal

theorem lexes_spelled {token : Token} {text : List Char} {tokens : List Token}
    (spelled : SpelledBefore token text) (lexes : Lexes false text tokens) (broken : Bool) :
    Lexes broken (token.literal.toList ++ text) (token.unplaced :: tokens) := by
  obtain ⟨terminal, spells, isKind, ends⟩ := spelled
  have read := @lexes_token broken _ _ _ _ _ spells isKind ends lexes
  rwa [String.ofList_toList] at read

/-- The tokens of a line whose last blank has become a line end. -/
theorem lexes_line {tokens later : List Token} {text rest : List Char}
    (written : Written tokens text) (nonempty : tokens ≠ [])
    (inked : ∀ character ∈ rest.head?, isInk character = true) (lexes : Lexes true rest later)
    (broken : Bool) :
    Lexes broken (text.dropLast ++ '\n' :: rest)
      (tokens.map unplaced ++ ⟨.newline, "\n", 0, 0⟩ :: later) := by
  induction written generalizing broken with
  | nil => exact absurd rfl nonempty
  | @apart token tokens text spelled written inductionHypothesis =>
    obtain ⟨terminal, spells, isKind⟩ := spelled
    have before : SpelledBefore token ((' ' :: text).dropLast ++ '\n' :: rest) :=
      ⟨terminal, spells, isKind, endsBefore_gap text rest terminal⟩
    rw [List.dropLast_append_of_ne_nil (List.cons_ne_nil _ _), List.append_assoc]
    refine lexes_spelled before ?_ broken
    cases tokens with
    | nil =>
      cases written
      exact lexes_lineFeed (fun character member =>
        Lexeme.noLineEnd_of_isInk (inked character member)) lexes
    | cons next tokens =>
      obtain ⟨first, others, split, inkedFirst⟩ := written.first_eq (List.cons_ne_nil _ _)
      have nonemptyText : text ≠ [] := by
        rintro rfl
        cases split
      rw [List.dropLast_cons_of_ne_nil nonemptyText]
      refine lexes_blank ?_ (inductionHypothesis (List.cons_ne_nil _ _) false)
      rw [split]
      simpa using Lexeme.not_blank_of_isInk inkedFirst
  | @touching token next tokens text spelled written inductionHypothesis =>
    have same := (written.head?_eq (List.cons_ne_nil _ _) ('\n' :: rest)).2
    have nonemptyText : text ≠ [] := by
      obtain ⟨before, last, rfl, -⟩ := written.text_eq (List.cons_ne_nil _ _)
      simp
    rw [List.dropLast_append_of_ne_nil nonemptyText, List.append_assoc]
    exact lexes_spelled (spelled.of_head same)
      (inductionHypothesis (List.cons_ne_nil _ _) false) broken

/-! ## Programs of lines -/

/-- Lines of tokens with the texts that write them. -/
inductive WrittenLines : List (List Token) → List Char → Prop where
  | nil : WrittenLines [] []
  | cons {tokens text lines rest} : Written tokens text → tokens ≠ [] → WrittenLines lines rest →
      WrittenLines (tokens :: lines) (text.dropLast ++ '\n' :: rest)

/-- The tokens that are read from lines. -/
def ofLines : List (List Token) → List Token
  | [] => [⟨.endOfInput, "", 0, 0⟩]
  | tokens :: lines => tokens ++ ⟨.newline, "\n", 0, 0⟩ :: ofLines lines

theorem WrittenLines.inked {lines : List (List Token)} {text : List Char}
    (written : WrittenLines lines text) : ∀ character ∈ text.head?, isInk character = true := by
  cases written with
  | nil => simp
  | cons written nonempty _ =>
    obtain ⟨first, others, split, inkedFirst⟩ := written.first_eq nonempty
    rw [split]
    simpa using inkedFirst

theorem lexes_lines {lines : List (List Token)} {text : List Char}
    (written : WrittenLines lines text) :
    Lexes true text (ofLines (lines.map (List.map unplaced))) := by
  induction written with
  | nil => exact lexes_nil true
  | cons written nonempty later inductionHypothesis =>
    exact lexes_line written nonempty later.inked inductionHypothesis true

/-- Lines that have been written are read back. -/
theorem tokenize_lines {lines : List (List Token)} {text : String}
    (written : WrittenLines lines text.toList) :
    ∃ tokens, tokenize text = .ok tokens ∧
      tokens.map unplaced = ofLines (lines.map (List.map unplaced)) := by
  obtain ⟨lexemes, cuts, read⟩ := lexes_lines written .start .start
  refine ⟨ofLexemes true .start lexemes, ?_, read⟩
  rw [tokenize, cuts.cut_eq]
  rfl

/-! ## Tokens that have been read -/

/-- The lexemes of a text have been scanned. -/
theorem scanned_of_cuts {position : Position} {source : List Char} {lexemes : List Lexeme}
    (cuts : Cuts position source lexemes) :
    ∀ lexeme ∈ lexemes, ∃ source rest,
      scan source = some (lexeme.terminal, lexeme.text, rest) := by
  induction cuts with
  | nil => simp
  | cons scanned _ inductionHypothesis =>
    exact List.forall_mem_cons.mpr ⟨⟨_, _, scanned⟩, inductionHypothesis⟩

theorem wellSpelled_of_lexemes {broken : Bool} {finish : Position} {lexemes : List Lexeme}
    (scanned : ∀ lexeme ∈ lexemes, ∃ source rest,
      scan source = some (lexeme.terminal, lexeme.text, rest)) :
    ∀ token ∈ ofLexemes broken finish lexemes,
      token.kind = .newline ∨ token.kind = .endOfInput ∨ WellSpelled token := by
  induction lexemes generalizing broken finish with
  | nil => simp [ofLexemes]
  | cons lexeme rest inductionHypothesis =>
    have later {broken : Bool} {finish : Position} := @inductionHypothesis broken finish
      fun other member => scanned other (by simp [member])
    rw [ofLexemes]
    split
    · exact later
    · split
      · exact later
      · intro token member
        rcases List.mem_cons.mp member with rfl | member
        · exact .inl rfl
        · exact later token member
    · rename_i kind noNewline isKind
      intro token member
      rcases List.mem_cons.mp member with rfl | member
      · obtain ⟨source, remaining, found⟩ := scanned lexeme (by simp)
        refine .inr (.inr ⟨lexeme.terminal, ?_, ?_⟩)
        · rw [String.toList_ofList]
          refine Lexeme.spells_of_scan found ⟨?_, ?_, ?_⟩ <;> intro terminal <;>
            simp_all [Lexeme.kind?]
        · rw [String.toList_ofList, ← isKind]
          rfl
      · exact later token member

/-- The tokens of a text are spelled well. -/
theorem wellSpelled_of_tokenize {source : String} {tokens : List Token}
    (read : tokenize source = .ok tokens) :
    ∀ token ∈ tokens, token.kind = .newline ∨ token.kind = .endOfInput ∨ WellSpelled token := by
  rw [tokenize, Result.bind_eq_ok_iff] at read
  obtain ⟨lexemes, cut, equal⟩ := read
  cases equal
  exact wellSpelled_of_lexemes (scanned_of_cuts (Lexeme.cuts_of_cut cut))

end Token

end ParaLang
