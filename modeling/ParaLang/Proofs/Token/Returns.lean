import ParaLang.Proofs.Token.Stopping

/-! # Carriage returns in front of line feeds

A text can be written with carriage returns in front of some of its line feeds.  It has the same
lexemes then: one that makes a token is met again as it is, and the carriage returns go into the
line ends, into a comment or into the blanks in front of a line end.  So the tokens are the same but
for the columns at which lines end. -/

namespace ParaLang

/-- A text, and the text with carriage returns in front of some of its line feeds. -/
inductive Returns : List Char → List Char → Prop where
  | nil : Returns [] []
  | keep {character : Char} {source other : List Char} (later : Returns source other) :
      Returns (character :: source) (character :: other)
  | insert {source other : List Char} (later : Returns source other) :
      Returns ('\n' :: source) ('\r' :: '\n' :: other)

namespace Returns

variable {source other : List Char} {character : Char}

theorem cons_iff (noFeed : character ≠ '\n') : Returns (character :: source) other ↔
    ∃ rest, other = character :: rest ∧ Returns source rest := by
  refine ⟨fun returns => ?_, ?_⟩
  · cases returns with
    | keep later => exact ⟨_, rfl, later⟩
    | insert => exact absurd rfl noFeed
  · rintro ⟨rest, rfl, later⟩
    exact .keep later

/-- A character of a class that holds no line feed stays where it is. -/
theorem of_accepted {accepts : Char → Bool} (returns : Returns (character :: source) other)
    (stops : accepts '\n' = false) (accepted : accepts character = true) :
    ∃ rest, other = character :: rest ∧ Returns source rest := by
  refine (cons_iff ?_).mp returns
  rintro rfl
  simp [stops] at accepted

theorem refl (source : List Char) : Returns source source := by
  induction source with
  | nil => exact .nil
  | cons character source inductionHypothesis => exact .keep inductionHypothesis

/-- What comes next in the other text comes next in the text, or is a carriage return. -/
theorem head?_eq (returns : Returns source other) :
    other.head? = source.head? ∨ source.head? = some '\n' ∧ other.head? = some '\r' := by
  cases returns with
  | nil | keep => exact .inl rfl
  | insert => exact .inr ⟨rfl, rfl⟩

/-- A line feed makes the columns in front of it irrelevant. -/
theorem after_eq (returns : Returns source other) {position place : Position}
    (line : place.line = position.line) (column : place = position ∨ source.head? = some '\n') :
    place.after other = position.after source := by
  induction returns generalizing position place with
  | nil => simpa [Position.after] using column
  | @keep character source other _ inductionHypothesis =>
    have same : place.next character = position.next character := by
      rcases column with rfl | feed
      · rfl
      · obtain rfl : character = '\n' := by simpa using feed
        simp [Position.next, line]
    exact inductionHypothesis (congrArg Position.line same) (.inl same)
  | insert _ inductionHypothesis =>
    have same : (place.next '\r').next '\n' = position.next '\n' := by
      simp [Position.next, line]
    exact inductionHypothesis (congrArg Position.line same) (.inl same)

end Returns

namespace Lexeme

section Splits

variable {α : Type} {related next : α → α → Prop} {found other : Option α} {split : α}

theorem rel_map {more again : α → α} (agree : Option.Rel related found other)
    (keeps : ∀ split split', related split split' → next (more split) (again split')) :
    Option.Rel next (found.map more) (other.map again) := by
  cases agree with
  | none => exact .none
  | some same => exact .some (keeps _ _ same)

theorem exists_of_rel (agree : Option.Rel related found other) (isFound : found = some split) :
    ∃ again, other = some again ∧ related split again := by
  subst isFound
  cases agree with
  | some same => exact ⟨_, rfl, same⟩

theorem none_of_rel (agree : Option.Rel related found other) (missing : found = none) :
    other = none := by
  subst missing
  cases agree
  rfl

end Splits

section Recognisers

variable {source other : List Char}

/-! ## Recognising again -/

/-- A run of characters goes on over a carriage return only to stop at the line feed behind it. -/
theorem takeRun_returns {accepts : Char → Bool} (stops : accepts '\n' = false)
    (returns : Returns source other) :
    ∃ tail rest, takeRun accepts other = ((takeRun accepts source).1 ++ tail, rest) ∧
      Returns (takeRun accepts source).2 rest ∧
      (tail = [] ∨ tail = ['\r'] ∧ accepts '\r' = true ∧
        (takeRun accepts source).2.head? = some '\n') := by
  induction returns with
  | nil => exact ⟨[], [], rfl, .nil, .inl rfl⟩
  | @keep character source other later inductionHypothesis =>
    cases accepted : accepts character with
    | true =>
      obtain ⟨tail, rest, run, behind, ends⟩ := inductionHypothesis
      simp only [takeRun, Prod.mk.injEq] at run behind ends ⊢
      exact ⟨tail, rest, by simp [accepted, run], by simpa [accepted] using behind,
        by simpa [accepted] using ends⟩
    | false => exact ⟨[], character :: other, by simp [takeRun, accepted],
        by simpa [takeRun, accepted] using .keep later, .inl rfl⟩
  | @insert source other later =>
    have nothing : takeRun accepts ('\n' :: source) = ([], '\n' :: source) := by
      simp [takeRun, stops]
    rw [nothing]
    cases accepted : accepts '\r' with
    | true => exact ⟨['\r'], '\n' :: other, by simp [takeRun, accepted, stops], .keep later,
        .inr ⟨rfl, rfl, rfl⟩⟩
    | false => exact ⟨[], '\r' :: '\n' :: other, by simp [takeRun, accepted], .insert later,
        .inl rfl⟩

/-- A run that takes no carriage return is the same. -/
theorem takeRun_returns_same {accepts : Char → Bool} {text rest : List Char}
    (taken : takeRun accepts source = (text, rest)) (stops : accepts '\n' = false)
    (refuses : accepts '\r' = false) (returns : Returns source other) :
    ∃ otherRest, takeRun accepts other = (text, otherRest) ∧ Returns rest otherRest := by
  obtain ⟨tail, otherRest, run, behind, ends⟩ := takeRun_returns stops returns
  rw [taken] at run behind
  rcases ends with rfl | ⟨-, accepted, -⟩
  · exact ⟨otherRest, by simpa using run, behind⟩
  · simp [refuses] at accepted

theorem Digits.returns {text rest : List Char} (digits : Digits source text rest)
    (returns : Returns source other) :
    ∃ otherRest, Digits other text otherRest ∧ Returns rest otherRest := by
  cases digits with
  | decimal isWhole isDigit isFraction =>
    obtain ⟨_, otherWhole, fromPoint⟩ :=
      takeRun_returns_same isWhole (by decide) (by decide) returns
    obtain ⟨_, rfl, fromDigit⟩ := (Returns.cons_iff (by decide)).mp fromPoint
    obtain ⟨otherMore, rfl, later⟩ := fromDigit.of_accepted (by decide) isDigit
    obtain ⟨otherRest, otherFraction, behind⟩ :=
      takeRun_returns_same isFraction (by decide) (by decide) later
    exact ⟨otherRest, .decimal otherWhole isDigit otherFraction, behind⟩
  | numeral isWhole noFraction =>
    obtain ⟨otherRest, otherWhole, later⟩ :=
      takeRun_returns_same isWhole (by decide) (by decide) returns
    refine ⟨otherRest, .numeral otherWhole fun digit more starts => ?_, later⟩
    subst starts
    cases later with
    | keep later =>
      cases later with
      | keep => exact noFraction digit _ rfl
      | insert => rfl

/-- A string holds no line feed, so it is the same one; what is behind it may have changed. -/
theorem closeString_returns (returns : Returns source other) :
    Option.Rel (fun split again => again.1 = split.1 ∧ Returns split.2 again.2)
      (closeString source) (closeString other) := by
  induction source using closeString.induct generalizing other with
  | case1 =>
    cases returns
    exact .none
  | case2 source =>
    obtain ⟨rest, rfl, later⟩ := (Returns.cons_iff (by decide)).mp returns
    exact .some ⟨rfl, later⟩
  | case3 source => cases returns <;> simp [closeString]
  | case4 =>
    obtain ⟨rest, rfl, later⟩ := (Returns.cons_iff (by decide)).mp returns
    cases later
    simp [closeString]
  | case5 source =>
    obtain ⟨rest, rfl, later⟩ := (Returns.cons_iff (by decide)).mp returns
    cases later <;> simp [closeString]
  | case6 character source noFeed inductionHypothesis =>
    obtain ⟨_, rfl, escaped⟩ := (Returns.cons_iff (by decide)).mp returns
    obtain ⟨rest, rfl, later⟩ := (Returns.cons_iff noFeed).mp escaped
    simp only [closeString, if_neg noFeed]
    exact rel_map (inductionHypothesis later) fun _ _ same => ⟨by rw [same.1], same.2⟩
  | case7 character source noQuote noFeed noEnd noBackslash inductionHypothesis =>
    have noEscape : character ≠ '\\' := by
      intro isBackslash
      cases source with
      | nil => exact noEnd isBackslash rfl
      | cons next source => exact noBackslash next source isBackslash rfl
    obtain ⟨rest, rfl, later⟩ := (Returns.cons_iff noFeed).mp returns
    simp only [closeString_cons noQuote noFeed noEscape]
    exact rel_map (inductionHypothesis later) fun _ _ same => ⟨by rw [same.1], same.2⟩

/-- A comment goes on over line ends, with the carriage returns in front of them. -/
theorem closeComment_returns (returns : Returns source other) :
    Option.Rel (fun split again => Returns split.1 again.1 ∧ Returns split.2 again.2)
      (closeComment source) (closeComment other) := by
  induction source using closeComment.induct generalizing other with
  | case1 =>
    cases returns
    exact .none
  | case2 source =>
    obtain ⟨_, rfl, closing⟩ := (Returns.cons_iff (by decide)).mp returns
    obtain ⟨rest, rfl, later⟩ := (Returns.cons_iff (by decide)).mp closing
    exact .some ⟨.keep (.keep .nil), later⟩
  | case3 character source notClosing inductionHypothesis =>
    rw [closeComment.eq_3 _ _ notClosing]
    cases returns with
    | @keep _ _ rest later =>
      have otherNotClosing : ∀ others, character = '*' → rest = '/' :: others → False := by
        rintro others isStar rfl
        cases later
        exact notClosing _ isStar rfl
      rw [closeComment.eq_3 _ _ otherNotClosing]
      exact rel_map (inductionHypothesis later) fun _ _ same => ⟨.keep same.1, same.2⟩
    | @insert _ rest later =>
      have skipped : closeComment ('\r' :: '\n' :: rest) =
          (closeComment rest).map fun split => ('\r' :: '\n' :: split.1, split.2) := by
        simp [closeComment]
        rfl
      rw [skipped]
      exact rel_map (inductionHypothesis later) fun _ _ same => ⟨.insert same.1, same.2⟩

/-- Line ends take the carriage returns along. -/
theorem takeLineEnds_returns (plain : '\r' ∉ source) (returns : Returns source other) :
    Returns (takeLineEnds source).1 (takeLineEnds other).1 ∧
      Returns (takeLineEnds source).2 (takeLineEnds other).2 := by
  induction returns with
  | nil => exact ⟨.nil, .nil⟩
  | @keep character source other later inductionHypothesis =>
    rw [List.mem_cons, not_or] at plain
    by_cases feed : character = '\n'
    · subst feed
      obtain ⟨inside, behind⟩ := inductionHypothesis plain.2
      exact ⟨.keep inside, behind⟩
    · have noReturn : character ≠ '\r' := Ne.symm plain.1
      rw [takeLineEnds_other feed noReturn, takeLineEnds_other feed noReturn]
      exact ⟨.nil, .keep later⟩
  | insert later inductionHypothesis =>
    rw [List.mem_cons, not_or] at plain
    obtain ⟨inside, behind⟩ := inductionHypothesis plain.2
    exact ⟨.insert inside, behind⟩

end Recognisers

/-! ## Lexemes met again -/

/-- How the text of a lexeme is changed by carriage returns: not at all, within, or by one more
character behind it. -/
inductive Widens (terminal : Terminal) (text other rest : List Char) : Prop where
  | same (equal : other = text)
  | within (gap : ¬MakesToken terminal) (returns : Returns text other)
  | behind (gap : ¬MakesToken terminal) (feed : rest.head? = some '\n')
      (equal : other = text ++ ['\r'])

/-- What a scanner finds at the front of a text, it finds at the front of the other one. -/
def Refinds (scanner : List Char → Option (Terminal × List Char × List Char))
    (source other : List Char) : Prop :=
  (∀ terminal text rest, scanner source = some (terminal, text, rest) →
    ∃ otherText otherRest, scanner other = some (terminal, otherText, otherRest) ∧
      Widens terminal text otherText rest ∧ Returns rest otherRest) ∧
  (scanner source = none → scanner other = none)

section Refinds

variable {source other text rest : List Char} {terminal : Terminal} {character : Char}

theorem Alone.returns (alone : Alone character source) (returns : Returns source other) :
    Alone character other := by
  rcases returns.head?_eq with same | ⟨-, isReturn⟩
  · rwa [Alone, same]
  · simp [Alone, isReturn, pairs]

/-- A run in a gap may take a carriage return from the line end behind it. -/
theorem widens_run {accepts : Char → Bool} (stops : accepts '\n' = false)
    (taken : takeRun accepts source = (text, rest)) (returns : Returns source other)
    (gap : ¬MakesToken terminal) (front : List Char) :
    ∃ otherText otherRest, takeRun accepts other = (otherText, otherRest) ∧
      Widens terminal (front ++ text) (front ++ otherText) rest ∧ Returns rest otherRest := by
  obtain ⟨tail, otherRest, run, behind, ends⟩ := takeRun_returns stops returns
  rw [taken] at run behind ends
  refine ⟨_, otherRest, run, ?_, behind⟩
  rcases ends with rfl | ⟨rfl, -, feed⟩
  · exact .same (by rw [List.append_nil])
  · exact .behind gap feed (List.append_assoc _ _ _).symm

/-- What stands at the front of a text stands at the front of the other one. -/
theorem Scans.returns (scans : Scans source terminal text rest) (plain : '\r' ∉ source)
    (returns : Returns source other) :
    ∃ otherText otherRest, Scans other terminal otherText otherRest ∧
      Widens terminal text otherText rest ∧ Returns rest otherRest := by
  cases scans with
  | name starts taken =>
    obtain ⟨other, rfl, later⟩ := returns.of_accepted rfl starts
    obtain ⟨otherRest, run, behind⟩ := takeRun_returns_same taken (by decide) (by decide) later
    exact ⟨_, otherRest, .name starts run, .same rfl, behind⟩
  | number isDigit digits =>
    obtain ⟨other, rfl, -⟩ := returns.of_accepted (by decide) isDigit
    obtain ⟨otherRest, digits, behind⟩ := digits.returns returns
    exact ⟨_, otherRest, .number isDigit digits, .same rfl, behind⟩
  | string closed =>
    obtain ⟨other, rfl, later⟩ := (Returns.cons_iff (by decide)).mp returns
    obtain ⟨⟨_, otherRest⟩, otherClosed, rfl, behind⟩ :=
      exists_of_rel (closeString_returns later) closed
    exact ⟨_, otherRest, .string otherClosed, .same rfl, behind⟩
  | blockComment closed =>
    obtain ⟨_, rfl, opened⟩ := (Returns.cons_iff (by decide)).mp returns
    obtain ⟨other, rfl, later⟩ := (Returns.cons_iff (by decide)).mp opened
    obtain ⟨⟨otherInside, otherRest⟩, otherClosed, inside, behind⟩ :=
      exists_of_rel (closeComment_returns later) closed
    exact ⟨_, otherRest, .blockComment otherClosed,
      .within (fun makes => makes.1 rfl) (.keep (.keep inside)), behind⟩
  | slash unclosed =>
    obtain ⟨_, rfl, opened⟩ := (Returns.cons_iff (by decide)).mp returns
    obtain ⟨other, rfl, later⟩ := (Returns.cons_iff (by decide)).mp opened
    exact ⟨_, _, .slash (none_of_rel (closeComment_returns later) unclosed), .same rfl, opened⟩
  | lineComment taken =>
    obtain ⟨_, rfl, opened⟩ := (Returns.cons_iff (by decide)).mp returns
    obtain ⟨other, rfl, later⟩ := (Returns.cons_iff (by decide)).mp opened
    obtain ⟨otherBody, otherRest, run, widens, behind⟩ :=
      widens_run rfl taken later (fun makes => makes.1 rfl) ['/', '/']
    exact ⟨_, otherRest, .lineComment run, widens, behind⟩
  | lineEnds taken nonempty =>
    -- the text has no carriage return itself, so each one in the other text belongs to a line end
    obtain ⟨inside, behind⟩ := takeLineEnds_returns plain returns
    rw [taken] at inside behind
    refine ⟨_, _, .lineEnds rfl fun isNil => ?_, .within (fun makes => makes.2.2 rfl) inside, behind⟩
    rw [isNil] at inside
    cases inside
    exact nonempty rfl
  | arrow =>
    obtain ⟨_, rfl, opened⟩ := (Returns.cons_iff (by decide)).mp returns
    obtain ⟨other, rfl, later⟩ := (Returns.cons_iff (by decide)).mp opened
    exact ⟨_, other, .arrow, .same rfl, later⟩
  | blanks blank alone taken =>
    obtain ⟨other, rfl, later⟩ := returns.of_accepted rfl blank
    obtain ⟨others, otherRest, run, widens, behind⟩ :=
      widens_run rfl taken later (fun makes => makes.2.1 rfl) [_]
    exact ⟨_, otherRest, .blanks blank (alone.returns later) run, widens, behind⟩
  | symbol symbol alone =>
    obtain ⟨other, rfl, later⟩ := returns.of_accepted rfl symbol
    exact ⟨_, other, .symbol symbol (alone.returns later), .same rfl, later⟩

theorem Stuck.returns (stuck : Stuck character source) (returns : Returns source other) :
    Stuck character other :=
  { stuck with
    noString := fun isQuote => none_of_rel (closeString_returns returns) (stuck.noString isQuote) }

theorem refinds_scan (plain : '\r' ∉ source) (returns : Returns source other) :
    Refinds scan source other := by
  refine ⟨fun terminal text rest scanned => ?_, fun unscanned => ?_⟩
  · obtain ⟨otherText, otherRest, scans, found⟩ := (scans_of_scan scanned).returns plain returns
    exact ⟨otherText, otherRest, scans.scan_eq, found⟩
  · cases source with
    | nil =>
      cases returns
      rfl
    | cons character source =>
      have stuck := stuck_of_scan unscanned
      obtain ⟨other, rfl, later⟩ := (Returns.cons_iff stuck.noLineFeed).mp returns
      exact (stuck.returns later).scan_eq

end Refinds

/-! ## Cutting again -/

/-- Behind a lexeme the columns differ only if the line ends there. -/
theorem Widens.after {terminal : Terminal} {text other rest : List Char}
    (widens : Widens terminal text other rest) {position place : Position}
    (line : place.line = position.line) (column : place = position ∨ text.head? = some '\n') :
    (place.after other).line = (position.after text).line ∧
      (place.after other = position.after text ∨ rest.head? = some '\n') := by
  have behind {other : List Char} (returns : Returns text other) :
      place.after other = position.after text := returns.after_eq line column
  cases widens with
  | same equal =>
    subst equal
    simp [behind (.refl _)]
  | within _ returns => simp [behind returns]
  | behind _ feed equal =>
    subst equal
    rw [Position.after_append, behind (.refl text)]
    exact ⟨rfl, .inr feed⟩

/-- The lexemes of a text and of the other one.  Those that make tokens are the same, and the others
stand on the same lines. -/
def Resembles (lexeme other : Lexeme) : Prop :=
  other.terminal = lexeme.terminal ∧ other.position.line = lexeme.position.line ∧
    (MakesToken lexeme.terminal → other = lexeme)

theorem resembles_of_widens {terminal : Terminal} {source text other rest : List Char}
    (scanned : scan source = some (terminal, text, rest))
    (widens : Widens terminal text other rest) {position place : Position}
    (line : place.line = position.line) (column : place = position ∨ source.head? = some '\n') :
    Resembles ⟨terminal, text, position⟩ ⟨terminal, other, place⟩ := by
  refine ⟨rfl, line, fun makes => ?_⟩
  have samePlace : place = position := by
    refine column.resolve_right fun feed => ?_
    obtain ⟨source, rfl⟩ := List.head?_eq_some_iff.mp feed
    cases scanned
    simp [MakesToken] at makes
  cases widens with
  | same equal => rw [samePlace, equal]
  | within gap | behind gap => exact absurd makes gap

/-- The other text is cut into lexemes that resemble those of the text, or fails as the text does. -/
theorem cut_returns (position place : Position) {source other : List Char} (plain : '\r' ∉ source)
    (returns : Returns source other) (line : place.line = position.line)
    (column : place = position ∨ source.head? = some '\n') :
    (∀ lexemes, cut position source = .ok lexemes →
      ∃ others, cut place other = .ok others ∧ List.Forall₂ Resembles lexemes others) ∧
    (∀ failure, cut position source = .error failure → cut place other = .error failure) := by
  induction position, source using cut.induct generalizing place other with
  | case1 position source terminal text rest scanned inductionHypothesis =>
    obtain ⟨otherText, otherRest, otherScanned, widens, later⟩ :=
      (refinds_scan plain returns).1 _ _ _ scanned
    obtain ⟨splits, nonempty⟩ := scan_splits scanned
    have plainRest : '\r' ∉ rest := fun member => plain (splits ▸ List.mem_append_right text member)
    have columnText : place = position ∨ text.head? = some '\n' := by
      rwa [← splits, List.head?_append_of_ne_nil _ nonempty] at column
    obtain ⟨lineAfter, columnAfter⟩ := widens.after line columnText
    obtain ⟨succeeds, fails⟩ := inductionHypothesis _ plainRest later lineAfter columnAfter
    rw [cut_scanned scanned, cut_scanned otherScanned]
    refine ⟨fun lexemes isCut => ?_, fun failure isCut => ?_⟩
    · obtain ⟨more, moreCut, equal⟩ := Result.bind_eq_ok_iff.mp isCut
      cases equal
      obtain ⟨others, othersCut, resemble⟩ := succeeds _ moreCut
      rw [othersCut]
      exact ⟨_, rfl, .cons (resembles_of_widens scanned widens line column) resemble⟩
    · cases moreCut : cut (position.after text) rest with
      | ok more => simp [moreCut] at isCut
      | error other =>
        rw [moreCut] at isCut
        cases isCut
        rw [fails _ moreCut]
        rfl
  | case2 position unscanned =>
    cases returns
    rw [cut_nil, cut_nil]
    refine ⟨fun lexemes isCut => ?_, fun _ isCut => ?_⟩
    · cases isCut
      exact ⟨[], rfl, .nil⟩
    · cases isCut
  | case3 position character source unscanned =>
    have noFeed : character ≠ '\n' := by
      rintro rfl
      cases unscanned
    have samePlace : place = position := column.resolve_right (by simpa using noFeed)
    have otherUnscanned := (refinds_scan plain returns).2 unscanned
    obtain ⟨other, rfl, -⟩ := (Returns.cons_iff noFeed).mp returns
    rw [cut_unscanned unscanned, cut_unscanned otherUnscanned, samePlace]
    exact ⟨fun _ isCut => (by cases isCut), fun _ isCut => isCut⟩

end Lexeme

namespace Token

open Lexeme (Resembles)

/-! ## Tokens -/

/-- A token without the column at which a line ends. -/
def withoutBreakColumn (token : Token) : Token :=
  if token.kind = .newline then { token with column := 0 } else token

theorem ofLexemes_resembling {lexemes others : List Lexeme}
    (resemble : List.Forall₂ Resembles lexemes others) (broken : Bool) (finish : Position) :
    (ofLexemes broken finish others).map withoutBreakColumn =
      (ofLexemes broken finish lexemes).map withoutBreakColumn := by
  induction resemble generalizing broken finish with
  | nil => rfl
  | @cons lexeme other lexemes others same _ inductionHypothesis =>
    obtain ⟨terminal, line, equal⟩ := same
    by_cases makes : Lexeme.MakesToken lexeme.terminal
    · rw [equal makes]
      simp only [ofLexemes]
      split
      · exact inductionHypothesis _ _
      · split <;> simp [inductionHypothesis]
      · simp [inductionHypothesis]
    · obtain ⟨terminal, text, position⟩ := lexeme
      obtain ⟨_, otherText, place⟩ := other
      subst terminal
      simp only [Lexeme.MakesToken, not_and_or, not_not] at makes
      rcases makes with rfl | rfl | rfl
      · exact inductionHypothesis _ _
      · exact inductionHypothesis _ _
      · have later := inductionHypothesis true finish
        rw [ofLexemes_lineEnds, ofLexemes_lineEnds, List.map_append, List.map_append, later]
        cases broken <;> simp_all [seamTokens, withoutBreakColumn]

/-- A text with carriage returns in front of some of its line feeds has the same tokens but for the
columns at which lines end, or fails as the text does. -/
theorem tokenize_returns {source other : String} (plain : '\r' ∉ source.toList)
    (returns : Returns source.toList other.toList) :
    (tokenize other).map (·.map withoutBreakColumn) =
      (tokenize source).map (·.map withoutBreakColumn) := by
  obtain ⟨succeeds, fails⟩ :=
    Lexeme.cut_returns .start .start plain returns rfl (.inl rfl)
  unfold tokenize
  cases isCut : Lexeme.cut .start source.toList with
  | error failure => rw [fails _ isCut]
  | ok lexemes =>
    obtain ⟨others, othersCut, resemble⟩ := succeeds _ isCut
    rw [othersCut]
    exact congrArg Except.ok (ofLexemes_resembling resemble true .start)

end Token

end ParaLang
