import ParaLang.Proofs.Token.Tiling

/-! # Where reading stops

A text that cannot be read is read up to some character.  No terminal describes any piece of the
text that starts there, and what comes before makes tokens: a lexeme is the same one in a text that
ends earlier, as long as the whole lexeme is still there. -/

namespace ParaLang

namespace Lexeme

open ParaLang.Decimal (IsNumeral IsDecimal)

/-! ## The languages of the terminals -/

/-- The texts that a terminal describes. -/
def Matches (text : List Char) : Terminal → Prop
  | .name => IsWord text
  | .string => ∃ inside, text = '"' :: inside ∧ Closes inside
  | .number => IsNumeral text ∨ IsDecimal text
  | .comment =>
    (∃ body, text = '/' :: '/' :: body ∧ '\n' ∉ body) ∨ ∃ body, text = '/' :: '*' :: body ++ ['*', '/']
  | .lineEnds =>
    ∃ ends : List (List Char), ends ≠ [] ∧ text = ends.flatten ∧
      ∀ lineEnd ∈ ends, lineEnd = ['\n'] ∨ lineEnd = ['\r', '\n']
  | .blanks => text ≠ [] ∧ ∀ character ∈ text, isBlank character = true
  | .arrow => text = ['-', '>']
  | .symbol character => text = [character] ∧ isSymbol character = true

/-- No terminal describes a piece at the front of a text. -/
def Unmatched (source : List Char) : Prop :=
  ∀ text rest terminal, source = text ++ rest → ¬Matches text terminal

/-- A character that starts no lexeme belongs to no class, and a quote opens no string. -/
structure Stuck (character : Char) (rest : List Char) : Prop where
  noName : startsName character = false
  noDigit : character.isDigit = false
  noLineFeed : character ≠ '\n'
  noBlank : isBlank character = false
  noSymbol : isSymbol character = false
  noString : character = '"' → closeString rest = none

theorem stuck_of_scan {character : Char} {rest : List Char}
    (unscanned : scan (character :: rest) = none) : Stuck character rest := by
  have noScan {terminal : Terminal} {text later : List Char}
      (scans : Scans (character :: rest) terminal text later) : False := by
    rw [scans.scan_eq] at unscanned
    cases unscanned
  have alone : Alone character rest := by
    by_contra together
    obtain ⟨next, later, rfl, isPair⟩ := exists_pair_of_not_alone together
    obtain ⟨_, _, _, scans⟩ := exists_scans_of_pairs isPair later
    exact noScan scans
  constructor
  case noName => exact Bool.eq_false_iff.mpr fun starts => noScan (.name starts rfl)
  case noDigit =>
    refine Bool.eq_false_iff.mpr fun isDigit => ?_
    obtain ⟨others, behind, digits⟩ := exists_digits rest isDigit
    exact noScan (.number isDigit digits)
  case noLineFeed =>
    rintro rfl
    exact noScan (.lineEnds rfl (List.cons_ne_nil _ _))
  case noBlank => exact Bool.eq_false_iff.mpr fun blank => noScan (.blanks blank alone rfl)
  case noSymbol => exact Bool.eq_false_iff.mpr fun symbol => noScan (.symbol symbol alone)
  case noString =>
    rintro rfl
    cases closed : closeString rest with
    | none => rfl
    | some split => exact (noScan (.string closed)).elim

theorem Stuck.scan_eq {character : Char} {rest : List Char} (stuck : Stuck character rest) :
    scan (character :: rest) = none := by
  by_contra scanned
  obtain ⟨⟨terminal, text, later⟩, scanned⟩ := Option.ne_none_iff_exists'.mp scanned
  cases scans_of_scan scanned with
  | name starts => exact absurd starts (by simp [stuck.noName])
  | number isDigit => exact absurd isDigit (by simp [stuck.noDigit])
  | string closed => exact absurd closed (by simp [stuck.noString rfl])
  | blanks blank => exact absurd blank (by simp [stuck.noBlank])
  | symbol symbol => exact absurd symbol (by simp [stuck.noSymbol])
  | blockComment | slash | lineComment | arrow => exact absurd stuck.noSymbol (by decide)
  | lineEnds taken nonempty =>
    have noReturn : character ≠ '\r' := by
      rintro rfl
      exact absurd stuck.noBlank (by decide)
    rw [takeLineEnds_other stuck.noLineFeed noReturn] at taken
    cases taken
    exact nonempty rfl

theorem unmatched_of_stuck {character : Char} {rest : List Char} (stuck : Stuck character rest) :
    Unmatched (character :: rest) := by
  intro text later terminal whole described
  cases terminal with
  | name =>
    obtain ⟨first, others, rfl, starts, -⟩ := described
    cases whole
    simp [stuck.noName] at starts
  | number =>
    obtain ⟨digit, others, rfl, isDigit⟩ := Decimal.exists_digit described
    cases whole
    simp [stuck.noDigit] at isDigit
  | string =>
    obtain ⟨inside, rfl, closes⟩ := described
    obtain ⟨rfl, rfl⟩ := List.cons.inj whole
    have unclosed : closeString (inside ++ later) = none := stuck.noString rfl
    rw [closes.closeString_eq later] at unclosed
    cases unclosed
  | comment =>
    have noSlash : character ≠ '/' := by
      rintro rfl
      exact absurd stuck.noSymbol (by decide)
    rcases described with ⟨body, rfl, -⟩ | ⟨body, rfl⟩ <;>
      exact noSlash (List.cons.inj whole).1
  | lineEnds =>
    obtain ⟨ends, nonempty, rfl, isEnd⟩ := described
    obtain ⟨first, others, rfl⟩ := List.exists_cons_of_ne_nil nonempty
    rcases isEnd first List.mem_cons_self with rfl | rfl
    · exact stuck.noLineFeed (List.cons.inj whole).1
    · obtain rfl := (List.cons.inj whole).1
      exact absurd stuck.noBlank (by decide)
  | blanks =>
    obtain ⟨nonempty, blank⟩ := described
    obtain ⟨first, others, rfl⟩ := List.exists_cons_of_ne_nil nonempty
    obtain rfl := (List.cons.inj whole).1
    exact absurd (blank character List.mem_cons_self) (by simp [stuck.noBlank])
  | arrow =>
    obtain rfl := described
    obtain rfl := (List.cons.inj whole).1
    exact absurd stuck.noSymbol (by decide)
  | symbol other =>
    obtain ⟨rfl, symbol⟩ := described
    obtain rfl := (List.cons.inj whole).1
    exact absurd symbol (by simp [stuck.noSymbol])

/-! ## Lexemes in a text that ends earlier -/

variable {source text front back : List Char}

/-- What follows a run does not go on with it, and neither does the beginning of what follows. -/
theorem takeRun_shorter {accepts : Char → Bool}
    (taken : takeRun accepts source = (text, front ++ back)) :
    takeRun accepts (text ++ front) = (text, front) := by
  simp only [takeRun, Prod.mk.injEq] at taken
  obtain ⟨rfl, behind⟩ := taken
  refine takeRun_append_rest (fun _ member => List.mem_takeWhile_imp member)
    fun character isNext => ?_
  have atBack : (source.dropWhile accepts).head? = some character := by
    rw [behind, List.head?_append, isNext]
    rfl
  simpa [atBack] using List.head?_dropWhile_not accepts source

theorem Digits.shorter (digits : Digits source text (front ++ back)) :
    Digits (text ++ front) text front := by
  generalize behind : front ++ back = rest at digits
  cases digits with
  | @decimal whole more others _ digit isWhole isDigit isFraction =>
    subst behind
    have splits := takeRun_append Char.isDigit more
    rw [isFraction] at splits
    have wholeShorter := @takeRun_shorter source whole ('.' :: digit :: others ++ front) back
      Char.isDigit (by rw [isWhole, ← splits]; simp)
    rw [List.append_assoc]
    exact .decimal wholeShorter isDigit (takeRun_shorter isFraction)
  | numeral isWhole noFraction =>
    subst behind
    refine .numeral (takeRun_shorter isWhole) fun digit more starts => ?_
    exact noFraction digit (more ++ back) (by rw [starts]; rfl)

theorem takeLineEnds_shorter (taken : takeLineEnds source = (text, front ++ back)) :
    takeLineEnds (text ++ front) = (text, front) := by
  induction source using takeLineEnds.induct generalizing text with
  | case1 source inside behind isInside inductionHypothesis
  | case2 source inside behind isInside inductionHypothesis =>
    rw [takeLineEnds, isInside] at taken
    cases taken
    simp [takeLineEnds, inductionHypothesis isInside]
  | case3 source noFeed noReturn =>
    rw [takeLineEnds.eq_3 _ noFeed noReturn] at taken
    cases taken
    rw [List.nil_append]
    exact takeLineEnds.eq_3 _ (fun rest isFeed => noFeed (rest ++ back) (by rw [isFeed]; rfl))
      fun rest isReturn => noReturn (rest ++ back) (by rw [isReturn]; rfl)

/-- A comment that is not closed in a whole text is not closed in its beginning. -/
theorem unclosed_shorter (unclosed : closeComment (front ++ back) = none) :
    closeComment front = none := by
  cases closed : closeComment front with
  | none => rfl
  | some split =>
    rw [closeComment_more closed back] at unclosed
    cases unclosed

theorem scan_shorter {terminal : Terminal}
    (scanned : scan source = some (terminal, text, front ++ back)) :
    scan (text ++ front) = some (terminal, text, front) := by
  have splits := (scan_splits scanned).1
  -- what the text starts with is known way by way, and what follows only gets shorter
  generalize behind : front ++ back = rest at scanned
  cases scans_of_scan scanned with
  | name starts taken =>
    subst behind
    exact (Scans.name starts (takeRun_shorter taken)).scan_eq
  | number isDigit digits =>
    subst behind
    exact (Scans.number isDigit digits.shorter).scan_eq
  | string closed => exact (Scans.string (closeString_again closed front)).scan_eq
  | blockComment closed => exact (Scans.blockComment (closeComment_again closed front)).scan_eq
  | slash unclosed =>
    cases front with
    | nil => rfl
    | cons star front =>
      obtain ⟨rfl, rfl⟩ := List.cons.inj behind
      exact (Scans.slash (unclosed_shorter unclosed)).scan_eq
  | lineComment taken =>
    subst behind
    exact (Scans.lineComment (takeRun_shorter taken)).scan_eq
  | lineEnds taken nonempty =>
    subst behind
    exact (Scans.lineEnds (takeLineEnds_shorter taken) nonempty).scan_eq
  | arrow => exact Scans.arrow.scan_eq
  | blanks blank alone taken =>
    subst behind
    obtain rfl := (List.cons.inj splits).2
    rw [List.append_eq, ← List.append_assoc] at alone
    exact (Scans.blanks blank alone.of_append (takeRun_shorter taken)).scan_eq
  | symbol symbol alone =>
    subst behind
    exact (Scans.symbol symbol alone.of_append).scan_eq

/-! ## Where cutting stops -/

/-- Cutting fails at a character that starts no lexeme, and what comes before is cut. -/
theorem stops_of_cut {position : Position} {source : List Char} {failure : Failure}
    (fails : cut position source = .error failure) :
    ∃ before character after lexemes, source = before ++ character :: after ∧
      failure = .diagnostic ⟨.unexpectedCharacter character, some (position.after before).line,
        some (position.after before).column, none⟩ ∧
      scan (character :: after) = none ∧ Cuts position before lexemes := by
  have halts := halts_of_cut fails
  clear fails
  induction halts with
  | @here position character source unscanned =>
    exact ⟨[], character, source, [], rfl, rfl, unscanned, .nil⟩
  | @later position source text rest terminal failure scanned _ inductionHypothesis =>
    obtain ⟨before, character, after, lexemes, rfl, failed, unscanned, cuts⟩ := inductionHypothesis
    refine ⟨text ++ before, character, after, _, ?_, ?_, unscanned, .cons (scan_shorter scanned) cuts⟩
    · rw [List.append_assoc, (scan_splits scanned).1]
    · rw [failed, Position.after_append]

end Lexeme

namespace Token

open Lexeme (Unmatched)
open ParaLang.Annotations (EndsOnce)

/-- The tokens of a text tile it, start with no line end, hold no two line ends in a row, and end
with the only end of the input.  A text without tokens holds a character at the place of the failure
at which no terminal matches, and the text before that character has tokens. -/
theorem tokenize_tiles (source : String) :
    (∃ tokens, tokenize source = .ok tokens ∧ Tiles false [] source.toList tokens ∧
      (∀ first ∈ tokens.head?, first.kind ≠ .newline) ∧ LineEndsApart tokens ∧ EndsOnce tokens) ∨
    ∃ before character after, source.toList = before ++ character :: after ∧
      tokenize source = fail (.unexpectedCharacter character) (some (lineBehind before))
        (some (columnBehind before)) ∧
      Unmatched (character :: after) ∧ ∃ tokens, tokenize (String.ofList before) = .ok tokens := by
  cases read : tokenize source with
  | ok tokens =>
    have once := endsOnce_of_tokenize read
    rw [tokenize, Result.bind_eq_ok_iff] at read
    obtain ⟨lexemes, isCut, equal⟩ := read
    cases equal
    have tiles : Tiles false [] ([] ++ source.toList)
        ([] ++ ofLexemes (!false || false) (Position.start.after []) lexemes) :=
      tiles_of_cuts (Lexeme.cuts_of_cut isCut) .nil rfl rfl
    exact .inl ⟨_, rfl, tiles, tiles.head_kind, tiles.lineEndsApart, once⟩
  | error failure =>
    have fails : Lexeme.cut .start source.toList = .error failure := by
      cases isCut : Lexeme.cut .start source.toList with
      | ok lexemes => simp [tokenize, isCut] at read
      | error other => simpa [tokenize, isCut] using read
    obtain ⟨before, character, after, lexemes, whole, rfl, unscanned, cuts⟩ :=
      Lexeme.stops_of_cut fails
    refine .inr ⟨before, character, after, whole, ?_,
      Lexeme.unmatched_of_stuck (Lexeme.stuck_of_scan unscanned), ?_⟩
    · rw [after_start]
      rfl
    · refine ⟨ofLexemes true .start lexemes, ?_⟩
      rw [tokenize, String.toList_ofList, cuts.cut_eq]
      rfl

end Token

end ParaLang
