import ParaLang.Proofs.Annotations.Sources
import ParaLang.Proofs.Token.Seams

/-! # The tokens tile the text

A text is the literals of its tokens with gaps in between, and a gap consists of blanks, line feeds
and comments.  A gap makes a `newline` token if a line feed outside its comments breaks the line;
nothing else makes one. -/

namespace ParaLang

/-! ## Places -/

/-- The number of the line right behind a text. -/
def lineBehind (before : List Char) : Nat :=
  before.count '\n' + 1

/-- The column right behind a text: the characters since its last line feed come before it. -/
def columnBehind (before : List Char) : Nat :=
  (before.reverse.takeWhile (· ≠ '\n')).length + 1

theorem after_start (before : List Char) :
    Position.start.after before = ⟨lineBehind before, columnBehind before⟩ := by
  induction before using List.reverseRecOn with
  | nil => rfl
  | append_singleton before last inductionHypothesis =>
    rw [Position.after_append, inductionHypothesis]
    by_cases isFeed : last = '\n' <;>
      simp [Position.after, Position.next, lineBehind, columnBehind, isFeed]

namespace Lexeme

/-! ## Gaps -/

/-- Blanks, line feeds and comments in front of the rest of a text, and whether a line feed outside
the comments is among them.  A line comment reaches to the end of its line, a block comment to the
first end mark. -/
inductive Gap : Bool → List Char → List Char → Prop where
  | nil {rest : List Char} : Gap false [] rest
  | blank {breaks : Bool} {character : Char} {gap rest : List Char}
      (isBlank : isBlank character = true) (later : Gap breaks gap rest) :
      Gap breaks (character :: gap) rest
  | lineFeed {breaks : Bool} {gap rest : List Char} (later : Gap breaks gap rest) :
      Gap true ('\n' :: gap) rest
  | lineComment {breaks : Bool} {body gap rest : List Char} (inLine : '\n' ∉ body)
      (ends : ∀ character ∈ (gap ++ rest).head?, character = '\n') (later : Gap breaks gap rest) :
      Gap breaks ('/' :: '/' :: body ++ gap) rest
  | blockComment {breaks : Bool} {body gap rest : List Char} (first : ¬['*', '/'] <:+: body)
      (later : Gap breaks gap rest) : Gap breaks ('/' :: '*' :: body ++ '*' :: '/' :: gap) rest

theorem Gap.append {breaks breaksMore : Bool} {gap more rest : List Char}
    (isGap : Gap breaks gap (more ++ rest)) (isMore : Gap breaksMore more rest) :
    Gap (breaks || breaksMore) (gap ++ more) rest := by
  generalize whole : more ++ rest = behind at isGap
  induction isGap with
  | nil => exact isMore
  | blank isBlank _ inductionHypothesis => exact .blank isBlank (inductionHypothesis whole)
  | lineFeed _ inductionHypothesis => exact .lineFeed (inductionHypothesis whole)
  | lineComment inLine ends _ inductionHypothesis =>
    subst whole
    rw [List.append_assoc]
    exact .lineComment inLine (by simpa using ends) (inductionHypothesis rfl)
  | blockComment first _ inductionHypothesis =>
    rw [List.append_assoc]
    exact .blockComment first (inductionHypothesis whole)

theorem gap_of_blanks {text : List Char} (rest : List Char)
    (blank : ∀ character ∈ text, isBlank character = true) : Gap false text rest := by
  induction text with
  | nil => exact .nil
  | cons character text inductionHypothesis =>
    obtain ⟨first, later⟩ := List.forall_mem_cons.mp blank
    exact .blank first (inductionHypothesis later)

theorem gap_of_takeLineEnds (source : List Char) :
    Gap (!(takeLineEnds source).1.isEmpty) (takeLineEnds source).1 (takeLineEnds source).2 := by
  induction source using takeLineEnds.induct with
  | case1 source text rest taken inductionHypothesis =>
    rw [taken] at inductionHypothesis
    simpa [takeLineEnds, taken] using .lineFeed inductionHypothesis
  | case2 source text rest taken inductionHypothesis =>
    rw [taken] at inductionHypothesis
    simpa [takeLineEnds, taken] using .blank rfl (.lineFeed inductionHypothesis)
  | case3 source noFeed noReturn =>
    unfold takeLineEnds
    split
    · exact absurd rfl (noFeed _)
    · exact absurd rfl (noReturn _)
    · exact .nil

/-- A line comment goes on up to a line feed or to the end of the text. -/
theorem gap_of_takeRun_line {source body rest : List Char}
    (taken : takeRun (· != '\n') source = (body, rest)) : Gap false ('/' :: '/' :: body) rest := by
  cases taken
  have isGap : Gap false ('/' :: '/' :: source.takeWhile (· != '\n') ++ [])
      (source.dropWhile (· != '\n')) := by
    refine .lineComment (fun inside => ?_) (fun character isNext => ?_) .nil
    · simpa using List.mem_takeWhile_imp inside
    · have front : (source.dropWhile (· != '\n')).head? = some character := isNext
      simpa [front] using List.head?_dropWhile_not (· != '\n') source
  rwa [List.append_nil] at isGap

/-- What makes no token is a piece of a gap. -/
theorem gap_of_scan {source text rest : List Char} {terminal : Terminal}
    (scanned : scan source = some (terminal, text, rest)) (makesNone : ¬MakesToken terminal) :
    Gap (terminal == .lineEnds) text rest := by
  cases scans_of_scan scanned with
  | blockComment closed =>
    obtain ⟨body, rfl, first⟩ := exists_body_of_closeComment closed
    exact .blockComment first .nil
  | lineComment taken => exact gap_of_takeRun_line taken
  | lineEnds taken nonempty =>
    have isGap := gap_of_takeLineEnds source
    rw [taken, List.isEmpty_eq_false_iff.mpr nonempty] at isGap
    exact isGap
  | blanks blank _ taken =>
    exact gap_of_blanks _ (List.forall_mem_cons.mpr ⟨blank, accepts_of_takeRun taken⟩)
  | name | number | string | slash | arrow | symbol =>
    exact absurd ⟨by simp, by simp, by simp⟩ makesNone

end Lexeme

namespace Token

open Lexeme (Gap Cuts MakesToken gap_of_scan spells_of_scan)
open ParaLang.Annotations (EndsOnce)

/-! ## Tiles -/

/-- A token stands right behind a text. -/
structure StandsBehind (before : List Char) (token : Token) : Prop where
  line : token.line = lineBehind before
  column : token.column = columnBehind before

/-- A `newline` token where there has to be one, and nothing elsewhere. -/
def Seam (breaks : Bool) (tokens : List Token) : Prop :=
  if breaks then ∃ lineEnd, tokens = [lineEnd] ∧ lineEnd.kind = .newline else tokens = []

/-- The tokens of the rest of a text behind what comes before.  Every token but the line ends is the
next piece of the text after a gap, and stands where the piece does.  A gap behind a token makes a
line end if it breaks the line; `opened` tells that there is a token before.  The end of the input
stands right behind the last token. -/
inductive Tiles : Bool → List Char → List Char → List Token → Prop where
  | finish {opened breaks : Bool} {before gap : List Char} {seam : List Token} {last : Token}
      (isGap : Gap breaks gap []) (isSeam : Seam (opened && breaks) seam)
      (kind : last.kind = .endOfInput) (literal : last.literal = "")
      (stands : StandsBehind before last) : Tiles opened before gap (seam ++ [last])
  | token {opened breaks : Bool} {before gap rest : List Char} {seam later : List Token}
      {token : Token} (isGap : Gap breaks gap (token.literal.toList ++ rest))
      (isSeam : Seam (opened && breaks) seam) (spelled : token.WellSpelled)
      (noLineEnd : token.kind ≠ .newline) (noFinish : token.kind ≠ .endOfInput)
      (stands : StandsBehind (before ++ gap) token)
      (tiles : Tiles true (before ++ gap ++ token.literal.toList) rest later) :
      Tiles opened before (gap ++ token.literal.toList ++ rest) (seam ++ token :: later)

theorem exists_kind {terminal : Terminal} (makes : MakesToken terminal) (text : List Char) :
    ∃ kind, (∀ position, Lexeme.kind? ⟨terminal, text, position⟩ = some kind) ∧
      kind ≠ .newline ∧ kind ≠ .endOfInput := by
  obtain ⟨noComment, noBlanks, noLineEnds⟩ := makes
  cases isKind : Lexeme.kind? ⟨terminal, text, .start⟩ with
  | none => cases terminal <;> simp_all [Lexeme.kind?]
  | some kind =>
    have possible := Lexeme.canMake_of_kind? isKind
    refine ⟨kind, fun _ => isKind, ?_, ?_⟩ <;> rintro rfl <;> cases terminal <;>
      simp_all [Lexeme.canMake, TokenKind.isModifier]

theorem standsBehind_after (before : List Char) (kind : TokenKind) (literal : String) :
    StandsBehind before ⟨kind, literal, (Position.start.after before).line,
      (Position.start.after before).column⟩ := by
  rw [after_start]
  exact ⟨rfl, rfl⟩

/-- A lexeme that makes a token ends the gap in front of it; the gap behind it is still empty. -/
theorem tiles_of_token {position : Position} {source text rest : List Char} {terminal : Terminal}
    {later : List Lexeme} (scanned : Lexeme.scan source = some (terminal, text, rest))
    (makes : MakesToken terminal) {opened breaks : Bool} {before gap : List Char} {seam : List Token}
    (isGap : Gap breaks gap source) (isSeam : Seam (opened && breaks) seam)
    (stands : position = Position.start.after (before ++ gap))
    (tiles : Tiles true (before ++ gap ++ text) rest
      (ofLexemes false (Position.start.after (before ++ gap ++ text)) later)) :
    Tiles opened before (gap ++ source)
      (seam ++ ofLexemes (!opened || breaks) (Position.start.after before)
        (⟨terminal, text, position⟩ :: later)) := by
  have splits := (Lexeme.scan_splits scanned).1
  obtain ⟨kind, isKind, noLineEnd, noFinish⟩ := exists_kind makes text
  let token : Token := ⟨kind, String.ofList text, position.line, position.column⟩
  have literal : token.literal.toList = text := String.toList_ofList
  have spelled : token.WellSpelled :=
    ⟨terminal, by rw [literal]; exact spells_of_scan scanned makes, by rw [literal, isKind]⟩
  have behind : position.after text = Position.start.after (before ++ gap ++ text) := by
    rw [stands, ← Position.after_append]
  have tokens : ofLexemes (!opened || breaks) (Position.start.after before)
      (⟨terminal, text, position⟩ :: later) =
        token :: ofLexemes false (position.after text) later := by
    simp [ofLexemes, isKind, token]
  have whole : gap ++ source = gap ++ token.literal.toList ++ rest := by
    rw [literal, List.append_assoc, splits]
  rw [tokens, whole, behind]
  refine .token (by rwa [literal, splits]) isSeam spelled noLineEnd noFinish ?_ (by rwa [literal])
  show StandsBehind (before ++ gap) ⟨kind, String.ofList text, position.line, position.column⟩
  rw [stands]
  exact standsBehind_after (before ++ gap) kind (String.ofList text)

/-- The lexemes of a text make tokens that tile it, where a gap may be open in front of them and its
line end, if it makes one, may be written already. -/
theorem tiles_of_cuts {position : Position} {source : List Char} {lexemes : List Lexeme}
    (cuts : Cuts position source lexemes) {opened breaks : Bool} {before gap : List Char}
    {seam : List Token} (isGap : Gap breaks gap source) (isSeam : Seam (opened && breaks) seam)
    (stands : position = Position.start.after (before ++ gap)) :
    Tiles opened before (gap ++ source)
      (seam ++ ofLexemes (!opened || breaks) (Position.start.after before) lexemes) := by
  -- along the lexemes, with the gap that is open and its line end generalized
  induction cuts generalizing opened breaks before gap seam with
  | nil =>
    rw [List.append_nil]
    exact .finish isGap isSeam rfl rfl (standsBehind_after before _ _)
  | @cons position source text rest terminal later scanned cuts inductionHypothesis =>
    by_cases makes : MakesToken terminal
    case pos =>
      have tiles := @inductionHypothesis true false (before ++ gap ++ text) [] [] .nil rfl
        (by rw [stands, ← Position.after_append, List.append_nil])
      exact tiles_of_token scanned makes isGap isSeam stands tiles
    case neg =>
      have isMore := gap_of_scan scanned makes
      rw [← (Lexeme.scan_splits scanned).1] at isGap ⊢
      have goesOn := fun {seam} isSeam => @inductionHypothesis opened _ before _ seam
        (isGap.append isMore) isSeam (by rw [stands, ← Position.after_append, List.append_assoc])
      rw [← List.append_assoc]
      by_cases isLineEnds : terminal = .lineEnds
      · subst isLineEnds
        simp only [BEq.rfl, Bool.or_true] at goesOn
        cases opened
        case false => exact goesOn isSeam
        case true =>
          cases breaks
          case true => exact goesOn isSeam
          case false =>
            obtain rfl : seam = [] := isSeam
            exact goesOn ⟨⟨.newline, "\n", position.line, position.column⟩, rfl, rfl⟩
      · have noKind : Lexeme.kind? ⟨terminal, text, position⟩ = none := by
          cases terminal <;> simp_all [MakesToken, Lexeme.kind?]
        rw [beq_eq_false_iff_ne.mpr isLineEnds, Bool.or_false] at goesOn
        rw [ofLexemes, noKind]
        exact goesOn isSeam

/-! ## Line ends of tiles -/

/-- No two line ends follow each other. -/
def LineEndsApart (tokens : List Token) : Prop :=
  tokens.IsChain fun first second => first.kind = .newline → second.kind ≠ .newline

theorem lineEndsApart_seam {breaks : Bool} {seam later : List Token} {token : Token}
    (isSeam : Seam breaks seam) (noLineEnd : token.kind ≠ .newline) (apart : LineEndsApart later) :
    LineEndsApart (seam ++ token :: later) := by
  have behind : LineEndsApart (token :: later) :=
    List.isChain_cons.mpr ⟨fun _ _ isLineEnd => absurd isLineEnd noLineEnd, apart⟩
  cases breaks with
  | false =>
    obtain rfl : seam = [] := isSeam
    exact behind
  | true =>
    obtain ⟨lineEnd, rfl, -⟩ := isSeam
    refine List.isChain_cons.mpr ⟨fun next isNext _ => ?_, behind⟩
    obtain rfl : token = next := Option.some.inj isNext
    exact noLineEnd

theorem Tiles.lineEndsApart {opened : Bool} {before text : List Char} {tokens : List Token}
    (tiles : Tiles opened before text tokens) : LineEndsApart tokens := by
  induction tiles with
  | finish _ isSeam kind => exact lineEndsApart_seam isSeam (by simp [kind]) List.isChain_nil
  | token _ isSeam _ noLineEnd _ _ _ inductionHypothesis =>
    exact lineEndsApart_seam isSeam noLineEnd inductionHypothesis

/-- The first gap makes no line end. -/
theorem Tiles.head_kind {before text : List Char} {tokens : List Token}
    (tiles : Tiles false before text tokens) : ∀ first ∈ tokens.head?, first.kind ≠ .newline := by
  cases tiles with
  | finish _ isSeam kind =>
    obtain rfl := show _ = [] from isSeam
    simp [kind]
  | token _ isSeam _ noLineEnd =>
    obtain rfl := show _ = [] from isSeam
    simpa using noLineEnd

end Token

end ParaLang
