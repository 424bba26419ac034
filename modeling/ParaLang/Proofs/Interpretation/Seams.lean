import ParaLang.Proofs.Annotations.Seams
import ParaLang.Proofs.Interpretation.Runs
import ParaLang.Proofs.Interpretation.Growth
import ParaLang.Proofs.Interpretation.Soundness

/-! # Runs that go on

A run over the first of two programs does not depend on the second one: it fails in the same way,
or leads to the line end between them, from where the second runs as it would by itself in the
tree that the first has built. -/

namespace ParaLang

namespace Interpretation

variable {verbosity : Nat} {state : State} {point later : Point}
  {passed front tail : List AnnotatedToken}

/-! ## Runs up to a seam -/

theorem complete_of_cons {token : AnnotatedToken}
    (complete : ∀ last ∈ (token :: front).getLast?, last.role ≠ .assign) :
    (token.role = .assign → front ≠ []) ∧ ∀ last ∈ front.getLast?, last.role ≠ .assign := by
  cases front with
  | nil => exact ⟨fun isAssign => absurd isAssign (complete token rfl), by simp⟩
  | cons next front =>
    rw [List.getLast?_cons_cons] at complete
    exact ⟨fun _ => by simp, complete⟩

/-- Up to a seam a run fails or goes on whatever stands behind the seam. -/
theorem run_to_seam (verbosity : Nat) (state : State) (passed : List AnnotatedToken)
    (complete : ∀ last ∈ front.getLast?, last.role ≠ .assign) :
    (∃ failure, ∀ tail, Separated tail →
      Point.ending verbosity ⟨passed, state, front ++ tail⟩ = .error failure) ∨
    ∃ next, ∀ tail, Separated tail →
      Leads verbosity ⟨passed, state, front ++ tail⟩ ⟨front.reverse ++ passed, next, tail⟩ := by
  induction front generalizing state passed with
  | nil => exact .inr ⟨state, fun _ _ => .refl⟩
  | cons token front inductionHypothesis =>
    obtain ⟨goesOn, completeFront⟩ := complete_of_cons complete
    cases stepped : (step verbosity state passed token front).outcome with
    | error failure =>
      refine .inl ⟨failure, fun tail separated => ?_⟩
      simp [Point.ending, walk, step_behind separated verbosity state passed goesOn, stepped]
    | ok next =>
      have moves (tail : List AnnotatedToken) (separated : Separated tail) :
          Moves verbosity ⟨passed, state, token :: (front ++ tail)⟩
            ⟨token :: passed, next, front ++ tail⟩ :=
        .step (by rw [step_behind separated verbosity state passed goesOn, stepped])
      rcases inductionHypothesis next (token :: passed) completeFront with
        ⟨failure, fails⟩ | ⟨last, leads⟩
      · refine .inl ⟨failure, fun tail separated => ?_⟩
        exact (ending_of_moves (moves tail separated)).trans (fails tail separated)
      · refine .inr ⟨last, fun tail separated => ?_⟩
        simpa using Relation.ReflTransGen.head (moves tail separated) (leads tail separated)

theorem moves_boundary {token : AnnotatedToken} (isBoundary : token.role.isBoundary = true)
    (rest : List AnnotatedToken) :
    Moves verbosity ⟨passed, state, token :: rest⟩ ⟨token :: passed, state, rest⟩ :=
  .step (by rw [step_boundary isBoundary]; rfl)

theorem ending_boundaries (boundaries : ∀ token ∈ tail, token.role.isBoundary = true) :
    Point.ending verbosity ⟨passed, state, tail⟩ = .ok state := by
  induction tail generalizing passed with
  | nil => rfl
  | cons token tail inductionHypothesis =>
    obtain ⟨isBoundary, later⟩ := List.forall_mem_cons.mp boundaries
    exact (ending_of_moves (moves_boundary isBoundary tail)).trans (inductionHypothesis later)

/-! ## Waiting targets -/

/-- A target waits only for the expression that comes next. -/
def Point.Awaits (point : Point) : Prop :=
  point.state.pending.isSome = true → point.rest.head?.any (·.role == .expression) = true

theorem awaits_of_moves (moves : Moves verbosity point later) (awaits : point.Awaits) :
    later.Awaits := by
  cases moves with
  | @step state next token passed rest stepped =>
    have nothingWaits (isOther : token.role ≠ .expression) : state.pending = none := by
      cases waiting : state.pending with
      | none => rfl
      | some target =>
        refine absurd ?_ isOther
        simpa using awaits (by simp [waiting])
    -- only an `=` in front of an expression makes a target wait, and the expression takes it
    cases effect_of_step stepped with
    | nothing quiet => simp [Point.Awaits, nothingWaits quiet]
    | waits _ _ follows => exact fun _ => follows
    | assigns _ _ waiting =>
      by_cases isExpression : token.role = .expression
      · simp [Point.Awaits, waiting, isExpression]
      · simp [Point.Awaits, waiting, isExpression, nothingWaits isExpression]
    | inspects isInspect => simp [Point.Awaits, nothingWaits (by simp [isInspect])]

/-! ## Inspections along a run -/

theorem inspections_of_leads (leads : Leads verbosity point later) :
    point.state.inspections <+: later.state.inspections := by
  induction leads with
  | refl => exact List.prefix_rfl
  | tail _ moves inductionHypothesis =>
    refine inductionHypothesis.trans ?_
    cases moves with
    | step stepped =>
      cases effect_of_step stepped with
      | nothing | waits | assigns => exact List.prefix_rfl
      | inspects => exact List.prefix_append _ _

/-! ## Joined programs -/

open Annotations (Joins)

/-- A run over joined programs fails like the run over the first, or runs the second from where the
first has ended. -/
theorem ending_joined {written second joined : List AnnotatedToken}
    (joins : Joins written second joined) (verbosity : Nat) :
    (∃ failure, Point.ending verbosity { rest := written } = .error failure ∧
      Point.ending verbosity { rest := joined } = .error failure) ∨
    ∃ final, Point.ending verbosity { rest := written } = .ok final ∧ final.pending = none ∧
      Point.ending verbosity { rest := joined } = Point.ending verbosity ⟨[], final, second⟩ := by
  cases joins with
  | @alone finish _ isEnd =>
    exact .inr ⟨{}, ending_boundaries (by simp [isEnd, Role.isBoundary]), rfl, rfl⟩
  | @behind front tail _ newline complete nonempty boundaries isNewline =>
    have separated : Separated tail := by
      intro token isHead
      have isBoundary := boundaries token (List.mem_of_mem_head? isHead)
      simp [Role.separates, isBoundary]
    have separatedBehind (rest : List AnnotatedToken) : Separated (newline :: rest) :=
      separated_cons (by rw [isNewline]; rfl)
    rcases run_to_seam verbosity {} [] complete with ⟨failure, fails⟩ | ⟨final, leads⟩
    · exact .inl ⟨failure, fails _ separated, fails _ (separatedBehind _)⟩
    · have toTail := leads _ separated
      have toNewline := leads _ (separatedBehind second)
      refine .inr ⟨final, (ending_of_leads toTail).trans (ending_boundaries boundaries), ?_, ?_⟩
      · have awaits := invariant_of_leads (fun _ _ => awaits_of_moves)
          (by simp [Point.Awaits]) toNewline
        cases waiting : final.pending with
        | none => rfl
        | some target => simp [Point.Awaits, waiting, isNewline] at awaits
      · have isBoundary : newline.role.isBoundary = true := by rw [isNewline]; rfl
        rw [ending_of_leads toNewline, ending_of_moves (moves_boundary isBoundary second)]
        exact congrArg Traced.outcome
          (walk_separated (separatedBehind _) verbosity final second)

open Annotations (annotate_eq_ok_iff furnished_of_reads genuine_of_tokenize reads_single
  typedFrames_nil NumberedToken)

/-- Tokens of a text that stand behind a line make a program whose diagnostics stand there too; so
does the end of the input by itself, which has none. -/
theorem settles_behind {source : String} {tokens rest : List Token} {second : List AnnotatedToken}
    {line : Int} (read : Token.tokenize source = .ok tokens) (among : rest ⊆ tokens)
    (annotated : annotate rest = .ok second)
    (lines : (∀ token ∈ rest, line < token.line) ∨ rest.length = 1)
    (holds : state.root.Holds WellStored) (nothingWaits : state.pending = none) :
    Settles (Placed fun place => line < place.line) (fun _ => True)
      (Point.ending verbosity ⟨[], state, second⟩) := by
  obtain ⟨ends, reads⟩ := annotate_eq_ok_iff.mp annotated
  rcases lines with inside | single
  · have furnished : AllFurnished (fun place => line < place.line) second :=
      furnished_of_reads reads (fun numbered member =>
        have inRest := NumberedToken.token_mem_of_mem member
        genuine_of_tokenize read (among inRest) (inside _ inRest)) typedFrames_nil
    have walked := @settles_walk _ True [] state verbosity second furnished
      ⟨holds, by simp [nothingWaits]⟩ (by simp [AllFurnished]) fun _ _ _ _ _ => trivial
    exact walked.placed.mono fun _ _ => trivial
  · -- the end of the input may stand on an earlier line, but no step fails there
    obtain ⟨finish, rfl⟩ := List.length_eq_one_iff.mp single
    have isEnd : finish.kind = .endOfInput := by simpa using ends
    obtain ⟨-, rfl⟩ := reads_single (show NumberedToken.kind ⟨finish, 1⟩ = _ from isEnd) reads
    rw [ending_boundaries (by simp [NumberedToken.inRole, Role.isBoundary])]
    trivial

/-- The joined text is annotated as a program in which the second one goes on behind the first. -/
theorem annotateSource_join {first second : String} {firstTokens : List Token}
    {firstWritten secondWritten : List AnnotatedToken}
    (firstRead : Token.tokenize first = .ok firstTokens) (closed : ¬ Token.OpensComment firstTokens)
    (firstAnnotated : annotateSource first = .ok firstWritten)
    (secondAnnotated : annotateSource second = .ok secondWritten) :
    ∃ later joined, annotateSource (first ++ "\n" ++ second) = .ok joined ∧
      Joins firstWritten later joined ∧
      ∀ verbosity state, state.root.Holds WellStored → state.pending = none →
        Settles (Placed fun place => lastLine first < place.line) (fun _ => True)
          (Point.ending verbosity ⟨[], state, later⟩) := by
  rw [annotateSource, firstRead, Result.ok_bind] at firstAnnotated
  rw [annotateSource, Result.bind_eq_ok_iff] at secondAnnotated
  obtain ⟨secondTokens, secondRead, secondAnnotated⟩ := secondAnnotated
  obtain ⟨body, finish, seam, rest, rfl, isEnd, joinedRead, same, lines⟩ :=
    Token.tokenize_join firstRead secondRead closed
  have only : ∀ token ∈ body, token.kind ≠ .endOfInput := by
    obtain ⟨before, last, split, -, only⟩ := Token.endsOnce_of_tokenize firstRead
    obtain ⟨rfl, -⟩ := List.append_inj' split rfl
    exact only
  obtain ⟨later, joined, laterAnnotated, joinedAnnotated, joins⟩ :=
    Annotations.annotate_join isEnd only firstAnnotated secondAnnotated same seam
  refine ⟨later, joined, ?_, joins, fun verbosity state holds nothingWaits => ?_⟩
  · rw [annotateSource, joinedRead, Result.ok_bind, joinedAnnotated]
  · exact settles_behind joinedRead (List.subset_append_right _ _) laterAnnotated lines holds
      nothingWaits

theorem outcome_runProgram {source : String} {written : List AnnotatedToken}
    (annotated : annotateSource source = .ok written) (verbosity : Nat) :
    (runProgram verbosity source).outcome =
      (Point.ending verbosity { rest := written }).map fun final =>
        ⟨final.root, final.inspections⟩ := by
  rw [runProgram, Traced.outcome_bind, Traced.outcome_lift, annotated, Result.ok_bind,
    outcome_interpret]

end Interpretation

open Interpretation in
/-- No forward references: a text does not depend on what follows it behind a line feed, unless it
opens a comment and never closes it.  The joined text is annotated; a failure of the first text is
its failure; and a tree of the first text grows, its inspections first, unless the run fails behind
its last line or at no place. -/
theorem runProgram_join {first second : String} {firstTokens : List Token}
    {firstWritten secondWritten : List AnnotatedToken}
    (firstRead : Token.tokenize first = .ok firstTokens) (closed : ¬ Token.OpensComment firstTokens)
    (firstAnnotated : annotateSource first = .ok firstWritten)
    (secondAnnotated : annotateSource second = .ok secondWritten) :
    (∃ joined, annotateSource (first ++ "\n" ++ second) = .ok joined) ∧ ∀ verbosity,
      (∀ failure, (runProgram verbosity first).outcome = .error failure →
        (runProgram verbosity (first ++ "\n" ++ second)).outcome = .error failure) ∧
      ∀ outcome, (runProgram verbosity first).outcome = .ok outcome →
        (∃ diagnostic, (runProgram verbosity (first ++ "\n" ++ second)).outcome =
            .error (.diagnostic diagnostic) ∧
          ((diagnostic.line = none ∧ diagnostic.token = none) ∨
            ∃ line, diagnostic.line = some line ∧ lastLine first < line)) ∨
        ∃ later, (runProgram verbosity (first ++ "\n" ++ second)).outcome = .ok later ∧
          outcome.lines <+: later.lines ∧ outcome.root.Grows later.root := by
  obtain ⟨later, joined, joinedAnnotated, joins, settles⟩ :=
    annotateSource_join firstRead closed firstAnnotated secondAnnotated
  refine ⟨⟨joined, joinedAnnotated⟩, fun verbosity => ?_⟩
  rw [outcome_runProgram firstAnnotated, outcome_runProgram joinedAnnotated]
  rcases ending_joined joins verbosity with
    ⟨failure, fails, joinedFails⟩ | ⟨final, ends, nothingWaits, goesOn⟩
  · rw [fails, joinedFails]
    exact ⟨fun _ same => same, by simp [Except.map]⟩
  · rw [ends, goesOn]
    refine ⟨by simp [Except.map], fun outcome succeeds => ?_⟩
    obtain rfl := Except.ok.inj succeeds
    have holds : final.root.Holds WellStored := by
      have sound := settles_runProgram verbosity first
      rw [outcome_runProgram firstAnnotated, ends] at sound
      exact sound
    have laterSettles := settles verbosity final holds nothingWaits
    cases secondEnds : Point.ending verbosity ⟨[], final, later⟩ with
    | error failure =>
      left
      have placed := laterSettles.of_error secondEnds
      cases failure with
      | fault fault => exact placed.elim
      | diagnostic diagnostic =>
        refine ⟨diagnostic, rfl, ?_⟩
        rcases placed with nowhere | ⟨place, behind, isLine, -⟩
        · exact .inl nowhere
        · exact .inr ⟨place.line, isLine, behind⟩
    | ok last =>
      obtain ⟨all, leads⟩ := leads_to_end secondEnds
      obtain ⟨more, inspections⟩ := inspections_of_leads leads
      refine .inr ⟨_, rfl, ?_, grows_of_leads leads⟩
      exact (List.prefix_append final.inspections more).map Inspection.text |>.trans
        (by rw [inspections]; exact List.prefix_rfl)

/-- A line that computes with a variable of the program in front of it. -/
theorem runProgram_join_block :
    Token.tokenize blockProgram = .ok blockTokens ∧ ¬ Token.OpensComment blockTokens ∧
    (∃ joined, annotateSource (blockProgram ++ "\n" ++ "c=a-1") = .ok joined) ∧
    ((∃ diagnostic, (runProgram 0 (blockProgram ++ "\n" ++ "c=a-1")).outcome =
        .error (.diagnostic diagnostic) ∧
      ((diagnostic.line = none ∧ diagnostic.token = none) ∨
        ∃ line, diagnostic.line = some line ∧ lastLine blockProgram < line)) ∨
    ∃ later, (runProgram 0 (blockProgram ++ "\n" ++ "c=a-1")).outcome = .ok later ∧
      blockOutcome.lines <+: later.lines ∧ blockOutcome.root.Grows later.root) := by
  have noSlash : ∀ token ∈ blockTokens, token.kind ≠ .slash := by decide
  have closed : ¬ Token.OpensComment blockTokens := by
    rintro ⟨before, slash, star, after, split, isSlash, -⟩
    exact noSlash slash (by rw [split]; simp) isSlash
  have readSecond : Token.tokenize "c=a-1" = .ok [⟨.identifier, "c", 1, 1⟩, ⟨.equals, "=", 1, 2⟩,
      ⟨.identifier, "a", 1, 3⟩, ⟨.minus, "-", 1, 4⟩, ⟨.int, "1", 1, 5⟩,
      ⟨.endOfInput, "", 1, 6⟩] := Token.tokenize_of_cutWithin? 5 rfl
  obtain ⟨firstWritten, first⟩ : ∃ written, annotateSource blockProgram = .ok written := by
    rw [annotateSource, tokenize_blockProgram]
    exact ⟨_, rfl⟩
  obtain ⟨secondWritten, second⟩ : ∃ written, annotateSource "c=a-1" = .ok written := by
    rw [annotateSource, readSecond]
    exact ⟨_, rfl⟩
  obtain ⟨joins, runs⟩ := runProgram_join tokenize_blockProgram closed first second
  exact ⟨tokenize_blockProgram, closed, joins, (runs 0).2 _ runProgram_blockProgram⟩

end ParaLang
