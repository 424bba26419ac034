import Mathlib
import ParaLang.Proofs.Annotations.Seams
import ParaLang.Proofs.Interpretation.Runs
import ParaLang.Proofs.Interpretation.Soundness
import ParaLang.Proofs.Statement.Rereading

/-! # The flat form of a program

The flat form of a text is a text again: its lines are read as the statements of the first one, one
by one, and so both texts leave the same tree.  This needs all literals outside of expressions to
be displayed as literals, as a flat form shows their values. -/

namespace ParaLang

open AnnotatedToken (essence shownTokens Presentable inner_of_presentable)

/-! ## Statements -/

section Collect

variable {run rest : List AnnotatedToken}

theorem collect_append (inner : ∀ token ∈ run, token.role.isBoundary = false)
    (current : List AnnotatedToken) :
    Statement.collect current (run ++ rest) = Statement.collect (run.reverse ++ current) rest := by
  induction run generalizing current with
  | nil => rfl
  | cons token run inductionHypothesis =>
    obtain ⟨first, later⟩ := List.forall_mem_cons.mp inner
    rw [List.cons_append, Statement.collect, if_neg (by simp [first]), inductionHypothesis later]
    simp

/-- The tokens in front of a boundary are a statement, if there are any. -/
theorem statements_append {place : AnnotatedToken}
    (inner : ∀ token ∈ run, token.role.isBoundary = false)
    (boundary : place.role.isBoundary = true) :
    statements (run ++ place :: rest) =
      if run.isEmpty then statements rest else run :: statements rest := by
  rw [statements, collect_append inner, Statement.collect, if_pos boundary, List.append_nil,
    List.isEmpty_reverse, List.reverse_reverse]
  rfl

/-- A statement stands in its program between boundaries, and has none inside. -/
structure StandsIn (tokens earlier statement later : List AnnotatedToken) : Prop where
  split : tokens = earlier ++ statement ++ later
  apart : Separated earlier.reverse
  inner : ∀ token ∈ statement, token.role.isBoundary = false

theorem standsIn_current {current : List AnnotatedToken}
    (inner : ∀ token ∈ current, token.role.isBoundary = false) (later : List AnnotatedToken) :
    StandsIn (current.reverse ++ later) [] current.reverse later :=
  ⟨rfl, separated_nil, fun token inside => inner token (List.mem_reverse.mp inside)⟩

/-- What stands behind a boundary stands apart from everything in front of it. -/
theorem StandsIn.behind {tokens earlier statement later : List AnnotatedToken}
    (stands : StandsIn tokens earlier statement later) {boundary : AnnotatedToken}
    (isBoundary : boundary.role.isBoundary = true) (front : List AnnotatedToken) :
    StandsIn (front ++ boundary :: tokens) (front ++ boundary :: earlier) statement later where
  split := by simp [stands.split]
  apart := by
    rcases earlier.eq_nil_or_concat' with rfl | ⟨others, last, rfl⟩
    · simpa [Separated, Role.separates] using .inl isBoundary
    · simpa [Separated] using stands.apart
  inner := stands.inner

theorem exists_standsIn_of_mem_collect {current tokens statement : List AnnotatedToken}
    (inner : ∀ token ∈ current, token.role.isBoundary = false)
    (member : statement ∈ Statement.collect current tokens) :
    ∃ earlier later, StandsIn (current.reverse ++ tokens) earlier statement later := by
  -- `current` holds the tokens since the last boundary, the latest one first
  induction tokens generalizing current with
  | nil =>
    unfold Statement.collect at member
    split at member
    · cases member
    · obtain rfl := List.mem_singleton.mp member
      exact ⟨[], [], standsIn_current inner []⟩
  | cons token rest inductionHypothesis =>
    unfold Statement.collect at member
    split at member
    · next isBoundary =>
      have behind (inRest : statement ∈ Statement.collect [] rest) :
          ∃ earlier later, StandsIn (current.reverse ++ token :: rest) earlier statement later := by
        obtain ⟨earlier, later, stands⟩ := inductionHypothesis (List.forall_mem_nil _) inRest
        exact ⟨_, later, stands.behind isBoundary current.reverse⟩
      split at member
      · exact behind member
      · rcases List.mem_cons.mp member with rfl | inRest
        · exact ⟨[], token :: rest, standsIn_current inner _⟩
        · exact behind inRest
    · next noBoundary =>
      have goesOn : ∀ other ∈ token :: current, other.role.isBoundary = false :=
        List.forall_mem_cons.mpr ⟨Bool.eq_false_iff.mpr noBoundary, inner⟩
      simpa using inductionHypothesis goesOn member

theorem exists_standsIn {tokens statement : List AnnotatedToken}
    (member : statement ∈ statements tokens) :
    ∃ earlier later, StandsIn tokens earlier statement later :=
  exists_standsIn_of_mem_collect (List.forall_mem_nil _) member

/-- A statement consists of tokens of the program. -/
theorem mem_of_mem_statements {tokens statement : List AnnotatedToken}
    (member : statement ∈ statements tokens) : ∀ token ∈ statement, token ∈ tokens := by
  obtain ⟨earlier, later, stands⟩ := exists_standsIn member
  intro token inside
  rw [stands.split]
  exact List.mem_append_left _ (List.mem_append_right _ inside)

end Collect

namespace Annotations

open Grammar
open NumberedToken (unplaced)

/-- A statement inside some blocks with tokens that can be shown. -/
structure Showable (tokens : List AnnotatedToken) : Prop where
  nonempty : tokens ≠ []
  presentable : ∀ token ∈ tokens, token.Presentable
  written : ∃ frames statement, Sound statement ∧ statementTokens frames statement = tokens

/-- A statement inside some blocks that is read from tokens that are spelled well. -/
structure SpelledLine (tokens : List AnnotatedToken) : Prop where
  nonempty : tokens ≠ []
  written : ∃ frames statement, Sound statement ∧ SpelledFrames frames ∧
    Spelled statement.leaves ∧ statementTokens frames statement = tokens

/-- It can be shown if its literals can. -/
theorem SpelledLine.showable {tokens : List AnnotatedToken} (spelledLine : SpelledLine tokens)
    (displayed : ∀ token ∈ tokens, Displayed token) : Showable tokens := by
  obtain ⟨nonempty, frames, statement, sound, spelledFrames, spelled, rfl⟩ := spelledLine
  refine ⟨nonempty, fun token member => ?_, frames, statement, sound, rfl⟩
  exact presentable_of_origin spelledFrames spelled (origin_statement sound token member)
    (displayed token member)

section Reads

variable {blocks : List Block} {tokens : List NumberedToken} {written : List AnnotatedToken}

/-- A statement that is spelled well comes first. -/
theorem spelledLine_cons {frames : List Frame} (spelledFrames : SpelledFrames frames)
    {statement : Statement NumberedToken} (sound : Sound statement)
    (spelled : ∀ token ∈ statement.leaves, inLine token.kind = true → token.token.WellSpelled)
    {place : AnnotatedToken} (boundary : place.role.isBoundary = true)
    {rest : List AnnotatedToken} (later : ∀ line ∈ statements rest, SpelledLine line) :
    ∀ line ∈ statements (statementTokens frames statement ++ place :: rest), SpelledLine line := by
  have spelledLeaves : Spelled statement.leaves := fun leaf among =>
    spelled leaf among (Statement.inLine sound.kinds leaf among)
  rw [statements_append (fun token member => (origin_statement sound token member).inner) boundary]
  split
  · exact later
  · next nonempty =>
    exact List.forall_mem_cons.mpr ⟨⟨by simpa using nonempty, frames, statement, sound,
      spelledFrames, spelledLeaves, rfl⟩, later⟩

/-- The statements of a text are spelled well if its tokens are. -/
theorem spelledLine_of_reads (reads : Reads blocks tokens written)
    (spelled : ∀ token ∈ tokens, inLine token.kind = true → token.token.WellSpelled)
    (spelledFrames : SpelledFrames (framesOfBlocks blocks)) :
    ∀ line ∈ statements written, SpelledLine line := by
  -- the invariant is that the names and types of the open blocks are spelled well
  induction reads with
  | finish sound _ =>
    obtain ⟨spelledHere, -⟩ := List.forall_mem_append.mp spelled
    exact spelledLine_cons spelledFrames_nil sound spelledHere rfl
      (by simp [statements, Statement.collect])
  | newline sound _ _ inductionHypothesis =>
    obtain ⟨spelledHere, spelledRest⟩ := List.forall_mem_append.mp spelled
    exact spelledLine_cons spelledFrames sound spelledHere rfl
      (inductionHypothesis (List.forall_mem_cons.mp spelledRest).2 spelledFrames)
  | @close block blocks statement _ _ _ sound _ _ inductionHypothesis =>
    obtain ⟨spelledHere, spelledRest⟩ := List.forall_mem_append.mp spelled
    have outer : SpelledFrames (framesOfBlocks blocks) := fun frame member =>
      spelledFrames frame (List.mem_append_right _ member)
    exact spelledLine_cons spelledFrames sound spelledHere rfl
      (inductionHypothesis (List.forall_mem_cons.mp spelledRest).2 outer)
  | @open_ blocks header place rest written kinds _ _ inductionHypothesis =>
    obtain ⟨spelledHere, spelledRest⟩ := List.forall_mem_append.mp spelled
    have spelledHeader : Spelled header.leaves := fun token member =>
      spelledHere token member (Header.inLine kinds token member)
    exact @spelledLine_cons [] spelledFrames_nil ⟨.empty, [], none⟩ sound_empty
      (by simp [Statement.leaves, Segment.leaves, segmentLeaves]) (blockToken (blockOf header) place)
      rfl written
      (inductionHypothesis (List.forall_mem_cons.mp spelledRest).2
        (spelledFrames_block kinds spelledHeader spelledFrames))

end Reads

/-! ## Lines -/

/-- The tokens that the line of a statement is read as. -/
def lineTokens (statement : List AnnotatedToken) : List Token :=
  statement.flatMap shownTokens

theorem unplaced_lineTokens (statement : List AnnotatedToken) :
    (lineTokens statement).map Token.unplaced = lineTokens statement := by
  rw [lineTokens, List.map_flatMap]
  exact List.flatMap_congr fun token _ => token.unplaced_shownTokens

theorem Showable.reread {tokens : List AnnotatedToken} (showable : Showable tokens)
    {run : List NumberedToken} (same : run.map unplaced = lineTokens tokens) :
    ∃ statement : Statement NumberedToken, statement.leaves = run ∧ Sound statement ∧
      (statementTokens [] statement).map essence = tokens.map essence := by
  obtain ⟨-, presentable, frames, statement, sound, rfl⟩ := showable
  exact exists_rereading sound presentable same

/-- A line that shows a statement is not empty. -/
theorem Showable.lineTokens_ne_nil {tokens : List AnnotatedToken} (showable : Showable tokens) :
    lineTokens tokens ≠ [] := by
  intro noTokens
  obtain ⟨statement, noLeaves, sound, same⟩ := @Showable.reread tokens showable [] noTokens.symm
  rw [statementTokens_nil sound noLeaves] at same
  exact showable.nonempty (List.map_eq_nil_iff.mp same.symm)

/-- Lines that are written one by one are read as the tokens that they show, line by line. -/
theorem exists_writtenLines {α : Type} {render : α → Except Fault String} {parts : List α}
    {shown : List (List AnnotatedToken)}
    (each : List.Forall₂ (fun part statement => lineTokens statement ≠ [] ∧ ∃ line text,
      render part = .ok line ∧ Token.Written (lineTokens statement) text ∧
        line.toList = text.dropLast) parts shown) :
    ∃ lines, parts.mapM render = .ok lines ∧
      Token.WrittenLines (shown.map lineTokens) (Text.unlines lines).toList := by
  induction each with
  | nil => exact ⟨[], rfl, .nil⟩
  | cons first _ inductionHypothesis =>
    obtain ⟨nonempty, line, text, rendered, written, lineText⟩ := first
    obtain ⟨lines, laterRendered, writtenLater⟩ := inductionHypothesis
    refine ⟨line :: lines, by simp [List.mapM_cons, rendered, laterRendered], ?_⟩
    have split : (Text.unlines (line :: lines)).toList =
        text.dropLast ++ '\n' :: (Text.unlines lines).toList := by
      rw [Text.unlines, List.map_cons, String.join_cons, String.toList_append,
        String.toList_append, lineText, List.append_assoc]
      rfl
    rw [split]
    exact .cons written nonempty writtenLater

theorem render_showable {shown : List (List AnnotatedToken)}
    (showable : ∀ statement ∈ shown, Showable statement) :
    ∃ lines, shown.mapM Statement.render = .ok lines ∧
      Token.WrittenLines (shown.map lineTokens) (Text.unlines lines).toList :=
  exists_writtenLines <| List.forall₂_same.mpr fun statement member =>
    have nonempty := (showable statement member).lineTokens_ne_nil
    ⟨nonempty, AnnotatedToken.render_statement (showable statement member).presentable nonempty⟩

/-- Lines that show some statements are a program with statements that read alike. -/
theorem exists_reads_lines {shown : List (List AnnotatedToken)}
    (showable : ∀ statement ∈ shown, Showable statement) {tokens : List NumberedToken}
    (same : tokens.map unplaced = Token.ofLines (shown.map lineTokens)) :
    ∃ written, Reads [] tokens written ∧
      (statements written).map (List.map essence) = shown.map (List.map essence) := by
  induction shown generalizing tokens with
  | nil =>
    simp only [List.map_nil, Token.ofLines, List.map_eq_singleton_iff] at same
    obtain ⟨place, rfl, isEnd⟩ := same
    exact ⟨_, @Reads.finish ⟨.empty, [], none⟩ place [] sound_empty (congrArg Token.kind isEnd),
      rfl⟩
  | cons statement shown inductionHypothesis =>
    obtain ⟨first, later⟩ := List.forall_mem_cons.mp showable
    simp only [List.map_cons, Token.ofLines, List.map_eq_append_iff, List.map_eq_cons_iff] at same
    obtain ⟨run, _, rfl, sameRun, place, rest, rfl, isNewline, sameRest⟩ := same
    obtain ⟨other, rfl, sound, alike⟩ := first.reread sameRun
    obtain ⟨written, reads, alikeRest⟩ := inductionHypothesis later sameRest
    have presentable := (AnnotatedToken.shown_of_essence alike first.presentable).1
    have nonempty : statementTokens [] other ≠ [] := by
      intro noTokens
      rw [noTokens] at alike
      exact first.nonempty (List.map_eq_nil_iff.mp alike.symm)
    refine ⟨_, .newline sound (congrArg Token.kind isNewline) reads, ?_⟩
    rw [framesOfBlocks_nil, statements_append
      (fun token member => inner_of_presentable (presentable token member)) rfl,
      if_neg (by simpa using nonempty), List.map_cons, List.map_cons, alike, alikeRest]

end Annotations

/-! ## Texts -/

open Annotations

/-- The tokens inside the lines of a text are spelled like its lexemes. -/
theorem wellSpelled_inLine {source : String} {tokens : List Token}
    (read : Token.tokenize source = .ok tokens) :
    ∀ token ∈ NumberedToken.ofTokens 0 tokens, Grammar.inLine token.kind = true →
      token.token.WellSpelled := by
  intro token member inside
  have kinds := Token.wellSpelled_of_tokenize read _ (NumberedToken.token_mem_of_mem member)
  rcases kinds with isNewline | isEnd | spelled
  · have kind : token.kind = .newline := isNewline
    rw [kind] at inside
    cases inside
  · have kind : token.kind = .endOfInput := isEnd
    rw [kind] at inside
    cases inside
  · exact spelled

theorem spelledLine_of_annotateSource {source : String} {written : List AnnotatedToken}
    (annotated : annotateSource source = .ok written) :
    ∀ statement ∈ statements written, SpelledLine statement := by
  obtain ⟨tokens, read, annotated⟩ := Result.bind_eq_ok_iff.mp annotated
  exact spelledLine_of_reads (annotate_eq_ok_iff.mp annotated).2 (wellSpelled_inLine read)
    spelledFrames_nil

/-- The statements of a text can be shown. -/
theorem showable_of_annotateSource {source : String} {written : List AnnotatedToken}
    (annotated : annotateSource source = .ok written)
    (displayed : ∀ token ∈ written, Displayed token) :
    ∀ statement ∈ statements written, Showable statement := fun statement member =>
  (spelledLine_of_annotateSource annotated statement member).showable fun token inside =>
    displayed token (mem_of_mem_statements member token inside)

/-- A text whose lines show some statements is annotated with statements that read alike. -/
theorem exists_annotateSource_lines {shown : List (List AnnotatedToken)}
    (showable : ∀ statement ∈ shown, Showable statement) {text : String}
    (writtenLines : Token.WrittenLines (shown.map lineTokens) text.toList) :
    ∃ again, annotateSource text = .ok again ∧
      (statements again).map (List.map essence) = shown.map (List.map essence) := by
  obtain ⟨tokens, read, unplacedTokens⟩ := Token.tokenize_lines writtenLines
  have same : (NumberedToken.ofTokens 0 tokens).map NumberedToken.unplaced =
      Token.ofLines (shown.map lineTokens) := by
    rw [map_unplaced_ofTokens, unplacedTokens, List.map_map]
    congr 2
    exact funext unplaced_lineTokens
  obtain ⟨again, reads, alike⟩ := exists_reads_lines showable same
  obtain ⟨before, finish, ends, isEnd, -⟩ := Token.endsOnce_of_tokenize read
  have last : tokens.getLast?.any (·.kind = .endOfInput) = true := by
    rw [ends, List.getLast?_concat]
    simp [isEnd]
  refine ⟨again, ?_, alike⟩
  rw [annotateSource, read]
  exact annotate_eq_ok_iff.mpr ⟨last, reads⟩

/-- A flat form is annotated with statements that read alike. -/
theorem exists_annotateSource_flat {written : List AnnotatedToken}
    (showable : ∀ statement ∈ statements written, Showable statement) :
    ∃ flat again, renderFlat written = .ok flat ∧ annotateSource flat = .ok again ∧
      (statements again).map (List.map essence) = (statements written).map (List.map essence) := by
  obtain ⟨lines, rendered, writtenLines⟩ := render_showable showable
  obtain ⟨again, annotated, alike⟩ := exists_annotateSource_lines showable writtenLines
  refine ⟨Text.unlines lines, again, ?_, annotated, alike⟩
  rw [renderFlat, rendered]
  rfl

/-- The flat form is a faithful program, if it displays all literals outside of expressions as
literals: it leaves the same tree, or fails for the same cause and path. -/
theorem runProgram_flat {source : String} {written : List AnnotatedToken}
    (annotated : annotateSource source = .ok written)
    (displayed : ∀ token ∈ written, Displayed token) :
    ∃ flat, renderFlat written = .ok flat ∧ ∀ verbosity otherVerbosity,
      Alike Outcome.SameUpToPlaces (runProgram verbosity source).outcome
        (runProgram otherVerbosity flat).outcome := by
  obtain ⟨flat, again, rendered, annotatedAgain, same⟩ :=
    exists_annotateSource_flat (showable_of_annotateSource annotated displayed)
  refine ⟨flat, rendered, fun verbosity otherVerbosity => ?_⟩
  simp only [runProgram, Traced.outcome_bind, Traced.outcome_lift, annotated, annotatedAgain,
    Result.ok_bind]
  exact alike_interpret_statements same.symm verbosity otherVerbosity

theorem runProgram_flat_block :
    ∃ written, annotateSource blockProgram = .ok written ∧ (∀ token ∈ written, Displayed token) ∧
      ∃ flat, renderFlat written = .ok flat ∧ ∀ verbosity otherVerbosity,
        Alike Outcome.SameUpToPlaces (runProgram verbosity blockProgram).outcome
          (runProgram otherVerbosity flat).outcome := by
  obtain ⟨written, annotated, isWritten⟩ : ∃ written, annotateSource blockProgram = .ok written ∧
      annotate blockTokens = .ok written := by
    rw [annotateSource, tokenize_blockProgram]
    exact ⟨_, rfl, rfl⟩
  have displayed : ∀ token ∈ written, Displayed token := by
    cases isWritten
    decide
  exact ⟨written, annotated, displayed, runProgram_flat annotated displayed⟩

/-- A truth value is displayed as a name.  The flat form of an assignment of one looks this name up,
and fails where there is none. -/
theorem runProgram_flat_bool :
    ∃ written root, annotateSource "x=true" = .ok written ∧
      (runProgram 0 "x=true").outcome = .ok { root := root } ∧
      renderFlat written = .ok "x = TRUE\n" ∧
      (runProgram 0 "x = TRUE\n").outcome =
        fail (.variableNotFound "TRUE") (some 1) (some 3) (some ["TRUE"]) := by
  have read : Token.tokenize "x=true" = .ok [⟨.identifier, "x", 1, 1⟩, ⟨.equals, "=", 1, 2⟩,
      ⟨.bool, "true", 1, 3⟩, ⟨.endOfInput, "", 1, 7⟩] := Token.tokenize_of_cutWithin? 3 rfl
  have readFlat : Token.tokenize "x = TRUE\n" = .ok [⟨.identifier, "x", 1, 1⟩,
      ⟨.equals, "=", 1, 3⟩, ⟨.identifier, "TRUE", 1, 5⟩, ⟨.newline, "\n", 1, 9⟩,
      ⟨.endOfInput, "", 1, 9⟩] := Token.tokenize_of_cutWithin? 6 rfl
  refine ⟨_, { entries := [("x", ⟨"x", .bool true, .string "bool", false, false⟩)] },
    by rw [annotateSource, read]; rfl, ?_, rfl, ?_⟩
  · rw [runProgram, annotateSource, read]
    rfl
  · rw [runProgram, annotateSource, readFlat]
    rfl

end ParaLang
