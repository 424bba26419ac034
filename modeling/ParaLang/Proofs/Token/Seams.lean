import Mathlib
import ParaLang.Proofs.Token.Spelling

/-! # Texts joined by a line feed

A text with a line feed and another text after it is cut into the lexemes of the two texts, except
that line ends around the seam make a single lexeme.  Only a comment that the first text opens and
never closes could reach over the seam. -/

namespace ParaLang

namespace Lexeme

/-! ## Runs of characters in front of a line feed -/

theorem takeRun_more {accepts : Char → Bool} (stops : accepts '\n' = false)
    {source text rest : List Char} (taken : takeRun accepts source = (text, rest))
    (more : List Char) :
    takeRun accepts (source ++ '\n' :: more) = (text, rest ++ '\n' :: more) := by
  induction source generalizing text rest with
  | nil =>
    cases taken
    simp [takeRun, stops]
  | cons character source inductionHypothesis =>
    have later := @inductionHypothesis (source.takeWhile accepts) _ rfl
    simp only [takeRun, Prod.mk.injEq] at taken later ⊢
    obtain ⟨rfl, rfl⟩ := taken
    cases accepted : accepts character <;> simp [accepted, later]

theorem Digits.more {source text rest : List Char} (digits : Digits source text rest)
    (more : List Char) : Digits (source ++ '\n' :: more) text (rest ++ '\n' :: more) := by
  cases digits with
  | decimal isWhole isDigit isFraction =>
    exact .decimal (takeRun_more rfl isWhole more) isDigit (takeRun_more rfl isFraction more)
  | numeral isWhole noFraction =>
    refine .numeral (takeRun_more rfl isWhole more) fun digit later starts => ?_
    rcases rest with _ | ⟨point, _ | ⟨next, rest⟩⟩
    · cases starts
    · cases starts
      rfl
    · cases starts
      exact noFraction digit rest rfl

theorem closeString_more {source inside rest : List Char}
    (closed : closeString source = some (inside, rest)) (more : List Char) :
    closeString (source ++ more) = some (inside, rest ++ more) := by
  rw [← closeString_append closed, List.append_assoc]
  exact closeString_again closed _

theorem closeComment_more {source inside rest : List Char}
    (closed : closeComment source = some (inside, rest)) (more : List Char) :
    closeComment (source ++ more) = some (inside, rest ++ more) := by
  rw [← closeComment_append closed, List.append_assoc]
  exact closeComment_again closed _

/-! ## Line ends in front of a line feed -/

/-- The text and a line feed after it are part of one run of line ends. -/
def Breaks (text : List Char) : Prop :=
  ∀ more, takeLineEnds (text ++ '\n' :: more) =
    (text ++ '\n' :: (takeLineEnds more).1, (takeLineEnds more).2)

theorem breaks_nil : Breaks [] := fun _ => rfl

theorem breaks_return : Breaks ['\r'] := fun _ => rfl

/-- A run of line ends goes on over the line feed if nothing is behind it, or a carriage return. -/
theorem takeLineEnds_more {source text rest : List Char}
    (taken : takeLineEnds source = (text, rest)) :
    (Breaks source ∧ (rest = [] ∨ rest = ['\r'])) ∨
      ∀ more, takeLineEnds (source ++ '\n' :: more) = (text, rest ++ '\n' :: more) := by
  induction source using takeLineEnds.induct generalizing text rest with
  | case1 source inside behind isInside inductionHypothesis
  | case2 source inside behind isInside inductionHypothesis =>
    rw [takeLineEnds, isInside] at taken
    cases taken
    rcases inductionHypothesis isInside with ⟨breaks, left⟩ | apart
    · exact .inl ⟨fun more => by simp [takeLineEnds, breaks more], left⟩
    · exact .inr fun more => by simp [takeLineEnds, apart more]
  | case3 source noFeed noReturn =>
    rw [takeLineEnds.eq_3 _ noFeed noReturn] at taken
    cases taken
    -- only a carriage return at the very end can still become part of a line end
    rcases source with _ | ⟨first, _ | ⟨second, source⟩⟩
    · exact .inl ⟨breaks_nil, .inl rfl⟩
    · by_cases isReturn : first = '\r'
      · subst isReturn
        exact .inl ⟨breaks_return, .inr rfl⟩
      · right
        intro more
        have noFirst : first ≠ '\n' := fun isFeed => noFeed [] (by rw [isFeed])
        simp [takeLineEnds, noFirst, isReturn]
    · right
      intro more
      have noFirst : first ≠ '\n' := fun isFeed => noFeed _ (by rw [isFeed])
      have noSecond : ¬(first = '\r' ∧ second = '\n') := by
        rintro ⟨rfl, rfl⟩
        exact noReturn _ rfl
      rw [takeLineEnds.eq_def]
      split <;> simp_all

/-! ## Lexemes in front of a line feed -/

/-- How a scanned lexeme is met again with a line feed behind the text: it is the same, it starts a
comment that is never closed, or it reaches the end of the text as a part of line ends. -/
def Meets (scanner : List Char → Option (Terminal × List Char × List Char))
    (source text rest : List Char) (terminal : Terminal) : Prop :=
  (∀ more, scanner (source ++ '\n' :: more) = some (terminal, text, rest ++ '\n' :: more)) ∨
    (terminal = .symbol '/' ∧ text = ['/'] ∧ ∃ inside, rest = '*' :: inside) ∨
    (Breaks source ∧ ((terminal = .lineEnds ∧ (rest = [] ∨ rest = ['\r'])) ∨
      (terminal = .blanks ∧ rest = [])))

/-- Only a carriage return with nothing behind it makes a pair with the line feed. -/
theorem Alone.more {character : Char} {source : List Char} (alone : Alone character source)
    (goesOn : ¬(character = '\r' ∧ source = [])) (more : List Char) :
    Alone character (source ++ '\n' :: more) := by
  cases source with
  | nil => simpa [Alone, pairs] using goesOn
  | cons next source => exact alone

theorem meets_scan {source text rest : List Char} {terminal : Terminal}
    (scanned : scan source = some (terminal, text, rest)) :
    Meets scan source text rest terminal := by
  cases scans_of_scan scanned with
  | name starts taken =>
    exact .inl fun more => (Scans.name starts (takeRun_more rfl taken more)).scan_eq
  | number isDigit digits =>
    exact .inl fun more => (Scans.number isDigit (digits.more more)).scan_eq
  | string closed => exact .inl fun more => (Scans.string (closeString_more closed _)).scan_eq
  | blockComment closed =>
    exact .inl fun more => (Scans.blockComment (closeComment_more closed _)).scan_eq
  | slash => exact .inr (.inl ⟨rfl, rfl, _, rfl⟩)
  | lineComment taken =>
    exact .inl fun more => (Scans.lineComment (takeRun_more rfl taken more)).scan_eq
  | lineEnds taken nonempty =>
    rcases takeLineEnds_more taken with ⟨breaks, left⟩ | apart
    · exact .inr (.inr ⟨breaks, .inl ⟨rfl, left⟩⟩)
    · exact .inl fun more => (Scans.lineEnds (apart more) nonempty).scan_eq
  | arrow => exact .inl fun _ => Scans.arrow.scan_eq
  | @blanks first source _ _ blank alone taken =>
    by_cases atEnd : first = '\r' ∧ source = []
    · obtain ⟨rfl, rfl⟩ := atEnd
      cases taken
      exact .inr (.inr ⟨breaks_return, .inr ⟨rfl, rfl⟩⟩)
    · exact .inl fun more =>
        (Scans.blanks blank (alone.more atEnd more) (takeRun_more rfl taken more)).scan_eq
  | @symbol character _ symbol alone =>
    have noReturn : character ≠ '\r' := by
      rintro rfl
      cases symbol
    exact .inl fun more =>
      (Scans.symbol symbol (alone.more (fun atEnd => noReturn atEnd.1) more)).scan_eq

end Lexeme

theorem Position.after_append (position : Position) (before after : List Char) :
    position.after (before ++ after) = (position.after before).after after :=
  List.foldl_append

namespace Token

open Lexeme (Breaks Cuts scan takeLineEnds)

/-! ## Tokens one lexeme at a time -/

/-- Whether a line end would add nothing behind some tokens. -/
def endsBroken (broken : Bool) (tokens : List Token) : Bool :=
  match tokens.getLast? with
  | none => broken
  | some last => last.kind == .newline

theorem endsBroken_cons (broken : Bool) (token : Token) (tokens : List Token) :
    endsBroken broken (token :: tokens) = endsBroken (token.kind == .newline) tokens := by
  cases tokens with
  | nil => rfl
  | cons next tokens => simp [endsBroken, List.getLast?_cons]

/-- A lexeme makes at most one token, and what follows is read in the state behind it. -/
theorem ofLexemes_cons (broken : Bool) (finish : Position) (lexeme : Lexeme) :
    ∃ front brokenNext finishNext, (∀ rest, ofLexemes broken finish (lexeme :: rest) =
        front ++ ofLexemes brokenNext finishNext rest) ∧
      ∀ tokens, endsBroken broken (front ++ tokens) = endsBroken brokenNext tokens := by
  cases isKind : lexeme.kind? with
  | none => exact ⟨[], broken, finish, fun rest => by simp [ofLexemes, isKind], fun _ => rfl⟩
  | some kind =>
    by_cases isNewline : kind = .newline
    · subst isNewline
      cases broken with
      | true => exact ⟨[], true, finish, fun rest => by simp [ofLexemes, isKind], fun _ => rfl⟩
      | false =>
        refine ⟨[⟨.newline, "\n", lexeme.position.line, lexeme.position.column⟩], true, finish,
          fun rest => by simp [ofLexemes, isKind], fun tokens => ?_⟩
        exact endsBroken_cons _ _ _
    · refine ⟨[⟨kind, String.ofList lexeme.text, lexeme.position.line, lexeme.position.column⟩],
        false, lexeme.position.after lexeme.text, fun rest => by simp [ofLexemes, isKind],
        fun tokens => ?_⟩
      have goesOn : (kind == .newline) = false := beq_eq_false_iff_ne.mpr isNewline
      rw [List.singleton_append, endsBroken_cons, goesOn]

/-! ## Comments that are never closed -/

/-- A slash stands directly in front of a star. -/
def OpensComment (tokens : List Token) : Prop :=
  ∃ before slash star after, tokens = before ++ slash :: star :: after ∧ slash.kind = .slash ∧
    star.kind = .star ∧ star.line = slash.line ∧ star.column = slash.column + 1

theorem OpensComment.append {tokens : List Token} (opens : OpensComment tokens)
    (front : List Token) : OpensComment (front ++ tokens) := by
  obtain ⟨before, slash, star, after, rfl, found⟩ := opens
  exact ⟨front ++ before, slash, star, after, by simp, found⟩

/-! ## Seams -/

/-- The `newline` token of a seam, unless a line end would add nothing. -/
def seamTokens (broken : Bool) (position : Position) : List Token :=
  if broken then [] else [⟨.newline, "\n", position.line, position.column⟩]

theorem ofLexemes_lineEnds (text : List Char) (position : Position) (rest : List Lexeme)
    (broken : Bool) (finish : Position) :
    ofLexemes broken finish (⟨.lineEnds, text, position⟩ :: rest) =
      seamTokens broken position ++ ofLexemes true finish rest := by
  cases broken <;> rfl

/-- Line ends that reach over a line feed are one lexeme, and what follows is read as if a new text
began behind the line feed. -/
theorem cuts_breaks {before : List Char} (breaks : Breaks before) (position : Position)
    {more : List Char} {later : List Lexeme}
    (laterCuts : Cuts (position.after (before ++ ['\n'])) more later) :
    ∃ all, Cuts position (before ++ '\n' :: more) all ∧ ∀ broken finish,
      ofLexemes broken finish all = seamTokens broken position ++ ofLexemes true finish later := by
  obtain ⟨ends, rest, taken⟩ : ∃ ends rest, takeLineEnds more = (ends, rest) := ⟨_, _, rfl⟩
  have scanned := @Lexeme.scan_lineEnds (before ++ '\n' :: more) _ _ (breaks more) (by simp)
  rw [taken] at scanned
  by_cases noEnds : ends = []
  · subst noEnds
    have whole : rest = more := by
      have splits := Lexeme.takeLineEnds_append more
      rw [taken] at splits
      exact splits
    subst whole
    exact ⟨_, .cons scanned laterCuts, ofLexemes_lineEnds _ _ _⟩
  · obtain ⟨others, rfl, othersCut⟩ := laterCuts.of_scanned (Lexeme.scan_lineEnds taken noEnds)
    have behind : position.after (before ++ '\n' :: ends) =
        (position.after (before ++ ['\n'])).after ends := by
      rw [← Position.after_append]
      simp
    rw [← behind] at othersCut
    refine ⟨_, .cons scanned othersCut, fun broken finish => ?_⟩
    rw [ofLexemes_lineEnds, ofLexemes_lineEnds]
    rfl

/-- Line ends that reach to the end of a text make at most one token, and none is added behind
it. -/
theorem ofLexemes_reaching {terminal : Terminal} {rest : List Char} {others : List Lexeme}
    {behind : Position}
    (reaches : (terminal = .lineEnds ∧ (rest = [] ∨ rest = ['\r'])) ∨
      (terminal = .blanks ∧ rest = []))
    (othersCut : Cuts behind rest others) (broken : Bool) (finish position : Position) :
    ∃ front, (∀ text, ofLexemes broken finish (⟨terminal, text, position⟩ :: others) =
        front ++ [⟨.endOfInput, "", finish.line, finish.column⟩]) ∧
      seamTokens broken position =
        front ++ seamTokens (endsBroken broken front) position := by
  have nothing {behind : Position} {others : List Lexeme} (cuts : Cuts behind [] others) :
      others = [] := by
    cases cuts with
    | nil => rfl
    | cons scanned => cases scanned
  rcases reaches with ⟨rfl, rfl | rfl⟩ | ⟨rfl, rfl⟩
  · obtain rfl := nothing othersCut
    refine ⟨seamTokens broken position, fun text => ofLexemes_lineEnds text position [] _ _, ?_⟩
    cases broken <;> rfl
  · have blank : scan ['\r'] = some (.blanks, ['\r'], []) := rfl
    obtain ⟨others, rfl, cuts⟩ := othersCut.of_scanned blank
    obtain rfl := nothing cuts
    refine ⟨seamTokens broken position, fun text => ofLexemes_lineEnds text position _ _ _, ?_⟩
    cases broken <;> rfl
  · obtain rfl := nothing othersCut
    exact ⟨[], fun _ => rfl, rfl⟩

/-- The tokens of a text up to its end are those of the text with a line feed and more behind it,
and what follows them is read as if a new text began there. -/
theorem cuts_more {position : Position} {source : List Char} {lexemes : List Lexeme}
    (cuts : Cuts position source lexemes) (broken : Bool) (finish : Position)
    (closed : ¬ OpensComment (ofLexemes broken finish lexemes)) :
    ∃ body last, ofLexemes broken finish lexemes =
        body ++ [⟨.endOfInput, "", last.line, last.column⟩] ∧
      ∀ more later, Cuts (position.after (source ++ ['\n'])) more later →
        ∃ all seam, Cuts position (source ++ '\n' :: more) all ∧
          ofLexemes broken finish all =
            body ++ seamTokens (endsBroken broken body) seam ++ ofLexemes true last later := by
  induction cuts generalizing broken finish with
  | @nil position =>
    refine ⟨[], finish, rfl, fun more later laterCuts => ?_⟩
    obtain ⟨all, allCuts, tokens⟩ := cuts_breaks Lexeme.breaks_nil position laterCuts
    exact ⟨all, position, allCuts, tokens broken finish⟩
  | @cons position source text rest terminal others scanned othersCut inductionHypothesis =>
    have split := (Lexeme.scan_splits scanned).1
    rcases Lexeme.meets_scan scanned with apart | ⟨rfl, rfl, inside, rfl⟩ | ⟨breaks, reaches⟩
    · obtain ⟨front, brokenNext, finishNext, tokens, state⟩ :=
        ofLexemes_cons broken finish ⟨terminal, text, position⟩
      rw [tokens] at closed ⊢
      obtain ⟨body, last, isBody, goesOn⟩ := inductionHypothesis brokenNext finishNext
        fun opens => closed (opens.append front)
      refine ⟨front ++ body, last, by rw [isBody, List.append_assoc], fun more later laterCuts => ?_⟩
      rw [← split, List.append_assoc, Position.after_append] at laterCuts
      obtain ⟨all, seam, allCuts, allTokens⟩ := goesOn more later laterCuts
      refine ⟨⟨terminal, text, position⟩ :: all, seam, .cons (apart more) allCuts, ?_⟩
      rw [tokens, allTokens, state]
      simp
    · have star : scan ('*' :: inside) = some (.symbol '*', ['*'], inside) := rfl
      obtain ⟨after, rfl, -⟩ := othersCut.of_scanned star
      exact absurd ⟨[], _, _, _, rfl, rfl, rfl, rfl, rfl⟩ closed
    · obtain ⟨front, isFront, seam⟩ := ofLexemes_reaching reaches othersCut broken finish position
      refine ⟨front, finish, isFront text, fun more later laterCuts => ?_⟩
      obtain ⟨all, allCuts, tokens⟩ := cuts_breaks breaks position laterCuts
      exact ⟨all, position, allCuts, by rw [tokens, seam]⟩

/-! ## Places -/

theorem unplaced_ofLexemes {lexemes others : List Lexeme}
    (same : lexemes.map (fun lexeme => (lexeme.terminal, lexeme.text)) =
      others.map fun lexeme => (lexeme.terminal, lexeme.text))
    (broken : Bool) (finish otherFinish : Position) :
    (ofLexemes broken finish lexemes).map unplaced =
      (ofLexemes broken otherFinish others).map unplaced := by
  induction lexemes generalizing others broken finish otherFinish with
  | nil =>
    obtain rfl := List.map_eq_nil_iff.mp same.symm
    rfl
  | cons lexeme lexemes inductionHypothesis =>
    obtain ⟨other, others, rfl, head, tail⟩ := List.map_eq_cons_iff.mp same.symm
    obtain ⟨terminal, text, position⟩ := lexeme
    obtain ⟨otherTerminal, otherText, otherPosition⟩ := other
    simp only [Prod.mk.injEq] at head
    obtain ⟨rfl, rfl⟩ := head
    have later := @inductionHypothesis others tail.symm
    have sameKind : Lexeme.kind? ⟨otherTerminal, otherText, otherPosition⟩ =
        Lexeme.kind? ⟨otherTerminal, otherText, position⟩ := rfl
    simp only [ofLexemes, sameKind]
    split
    · exact later _ _ _
    · split
      · exact later _ _ _
      · simp only [List.map_cons, unplaced, later true finish otherFinish]
    · simp only [List.map_cons, unplaced, later false _ (Position.after otherPosition otherText)]

/-- A text is cut alike wherever it starts. -/
theorem cuts_elsewhere {position : Position} {source : List Char} {lexemes : List Lexeme}
    (cuts : Cuts position source lexemes) (other : Position) :
    ∃ others, Cuts other source others ∧
      lexemes.map (fun lexeme => (lexeme.terminal, lexeme.text)) =
        others.map fun lexeme => (lexeme.terminal, lexeme.text) := by
  induction cuts generalizing other with
  | nil => exact ⟨[], .nil, rfl⟩
  | @cons _ _ text _ terminal _ scanned _ inductionHypothesis =>
    obtain ⟨others, othersCut, same⟩ := inductionHypothesis (other.after text)
    exact ⟨⟨terminal, text, other⟩ :: others, .cons scanned othersCut, by simp [same]⟩

theorem line_after (position : Position) (text : List Char) :
    (position.after text).line = position.line + text.count '\n' := by
  induction text generalizing position with
  | nil => rfl
  | cons character text inductionHypothesis =>
    have step : position.after (character :: text) = (position.next character).after text := rfl
    rw [step, inductionHypothesis, List.count_cons]
    by_cases isFeed : character = '\n'
    · simp [Position.next, isFeed]
      omega
    · simp [Position.next, isFeed]

theorem line_le_of_cuts {position : Position} {source : List Char} {lexemes : List Lexeme}
    (cuts : Cuts position source lexemes) :
    ∀ lexeme ∈ lexemes, position.line ≤ lexeme.position.line := by
  induction cuts with
  | nil => simp
  | @cons position _ text _ _ _ _ _ inductionHypothesis =>
    have advances : position.line ≤ (position.after text).line := by
      rw [line_after]
      omega
    exact List.forall_mem_cons.mpr
      ⟨le_rfl, fun lexeme member => advances.trans (inductionHypothesis lexeme member)⟩

section Lines

variable {line : Nat} {lexemes : List Lexeme}

theorem line_le_of_mem_ofLexemes (inside : ∀ lexeme ∈ lexemes, line ≤ lexeme.position.line)
    (broken : Bool) {finish : Position} (finishInside : line ≤ finish.line) :
    ∀ token ∈ ofLexemes broken finish lexemes, (line : Int) ≤ token.line := by
  induction lexemes generalizing broken finish with
  | nil => simpa [ofLexemes] using finishInside
  | cons lexeme lexemes inductionHypothesis =>
    obtain ⟨lexemeInside, laterInside⟩ := List.forall_mem_cons.mp inside
    have later := @inductionHypothesis laterInside
    have behind : line ≤ (lexeme.position.after lexeme.text).line := by
      rw [line_after]
      omega
    rw [ofLexemes]
    split
    · exact later _ finishInside
    · split
      · exact later _ finishInside
      · exact List.forall_mem_cons.mpr ⟨Int.ofNat_le.mpr lexemeInside, later _ finishInside⟩
    · exact List.forall_mem_cons.mpr ⟨Int.ofNat_le.mpr lexemeInside, later _ behind⟩

/-- The tokens behind a line end stand on the lines of their lexemes, the end of the input too
unless it is alone. -/
theorem line_le_or_alone (inside : ∀ lexeme ∈ lexemes, line ≤ lexeme.position.line)
    (finish : Position) :
    (∀ token ∈ ofLexemes true finish lexemes, (line : Int) ≤ token.line) ∨
      ofLexemes true finish lexemes = [⟨.endOfInput, "", finish.line, finish.column⟩] := by
  induction lexemes with
  | nil => exact .inr rfl
  | cons lexeme lexemes inductionHypothesis =>
    obtain ⟨lexemeInside, laterInside⟩ := List.forall_mem_cons.mp inside
    have behind : line ≤ (lexeme.position.after lexeme.text).line := by
      rw [line_after]
      omega
    simp only [ofLexemes, if_true]
    split
    · exact inductionHypothesis laterInside
    · exact inductionHypothesis laterInside
    · exact .inl (List.forall_mem_cons.mpr ⟨Int.ofNat_le.mpr lexemeInside,
        line_le_of_mem_ofLexemes laterInside _ behind⟩)

end Lines

end Token

/-! ## Joined texts -/

/-- The number of the last line of a text. -/
def lastLine (source : String) : Int :=
  1 + source.toList.count '\n'

namespace Token

/-- The tokens of two texts with a line feed in between: those of the first up to its end, a
`newline` token unless a line end would add nothing, and those of the second on later lines. -/
theorem tokenize_join {first second : String} {firstTokens secondTokens : List Token}
    (firstRead : tokenize first = .ok firstTokens)
    (secondRead : tokenize second = .ok secondTokens) (closed : ¬ OpensComment firstTokens) :
    ∃ body finish seam rest, firstTokens = body ++ [finish] ∧ finish.kind = .endOfInput ∧
      tokenize (first ++ "\n" ++ second) =
        .ok (body ++ seamTokens (endsBroken true body) seam ++ rest) ∧
      rest.map unplaced = secondTokens.map unplaced ∧
      ((∀ token ∈ rest, lastLine first < token.line) ∨ rest.length = 1) := by
  rw [tokenize, Result.bind_eq_ok_iff] at firstRead secondRead
  obtain ⟨lexemes, isCut, equal⟩ := firstRead
  cases equal
  obtain ⟨others, othersCut, equal⟩ := secondRead
  cases equal
  obtain ⟨body, last, isBody, goesOn⟩ := cuts_more (Lexeme.cuts_of_cut isCut) true .start closed
  obtain ⟨later, laterCuts, same⟩ :=
    cuts_elsewhere (Lexeme.cuts_of_cut othersCut) (Position.start.after (first.toList ++ ['\n']))
  obtain ⟨all, seam, allCuts, tokens⟩ := goesOn _ _ laterCuts
  refine ⟨body, _, seam, ofLexemes true last later, isBody, rfl, ?_,
    (unplaced_ofLexemes same _ _ _).symm, ?_⟩
  · have joined : (first ++ "\n" ++ second).toList = first.toList ++ '\n' :: second.toList := by
      simp [String.toList_append]
    rw [tokenize, joined, allCuts.cut_eq, ← tokens]
    rfl
  · have line : (Position.start.after (first.toList ++ ['\n'])).line =
        first.toList.count '\n' + 2 := by
      rw [line_after, List.count_append]
      simp [Position.start]
      omega
    rcases line_le_or_alone (line_le_of_cuts laterCuts) last with inside | alone
    · left
      intro token member
      have below := inside token member
      rw [line] at below
      simp only [lastLine]
      omega
    · exact .inr (by rw [alone]; rfl)

end Token

end ParaLang
