import ParaLang.Proofs.Annotations.Exchange
import ParaLang.Proofs.Annotations.Questions
import ParaLang.Proofs.Interpretation.Deeds
import ParaLang.Proofs.Scope.Agreement

/-! # Independent assignments

Two assignments in neighbouring lines outside of all blocks, neither of which writes where the
other one writes or may read, can be exchanged.  The program then fails as before or builds a tree
with the same contents, and its question marks find the same. -/

namespace ParaLang

/-- The outcome of the program that some tokens make. -/
def runTokens (verbosity : Nat) (tokens : List Token) : Result Outcome := do
  (interpret verbosity (← annotate tokens)).outcome

/-! ## Places of inspections -/

def Inspection.place (inspection : Inspection) : Place :=
  ⟨inspection.line, inspection.token⟩

/-- The text of an inspection is a matter of its place and of what it finds. -/
theorem texts_eq {inspections others : List Inspection}
    (places : inspections.map Inspection.place = others.map Inspection.place)
    (findings : inspections.map Inspection.finding = others.map Inspection.finding) :
    inspections.map Inspection.text = others.map Inspection.text := by
  induction inspections generalizing others with
  | nil =>
    obtain rfl := List.map_eq_nil_iff.mp places.symm
    rfl
  | cons inspection inspections inductionHypothesis =>
    obtain ⟨other, others, rfl, place, laterPlaces⟩ := List.map_eq_cons_iff.mp places.symm
    obtain ⟨finding, laterFindings⟩ := List.cons.inj findings
    obtain ⟨line, token⟩ := Place.mk.inj place
    simp only [List.map_cons, Inspection.text_eq, finding, line, token,
      inductionHypothesis laterPlaces.symm laterFindings]

namespace Interpretation

open Annotations (inspects)

section Places

variable {verbosity : Nat} {state next final : State} {passed rest tokens : List AnnotatedToken}
  {token : AnnotatedToken}

theorem place_of_inspect {inspection : Inspection}
    (inspected : inspect state token passed = .ok inspection) :
    inspection.place = token.place := by
  have onPath : (inspectPath state.root token passed).place = token.place := by
    simp only [inspectPath]
    split
    · rfl
    · split <;> rfl
  unfold inspect at inspected
  split at inspected
  · obtain rfl := Except.ok.inj inspected
    exact onPath
  · split at inspected
    · obtain ⟨value, -, reported⟩ := Result.bind_eq_ok_iff.mp inspected
      obtain rfl := Except.ok.inj reported
      rfl
    · split at inspected
      · obtain rfl := Except.ok.inj inspected
        rfl
      · obtain rfl := Except.ok.inj inspected
        exact onPath

/-- A step over a question mark inspects there, and no other step inspects. -/
theorem places_of_step (stepped : (step verbosity state passed token rest).outcome = .ok next) :
    next.inspections.map Inspection.place =
      state.inspections.map Inspection.place ++ (inspects [token]).map AnnotatedToken.place := by
  by_cases isInspect : token.role = .inspect
  · rw [outcome_step_inspect isInspect] at stepped
    obtain ⟨inspection, inspected, reached⟩ := Result.bind_eq_ok_iff.mp stepped
    obtain rfl : { state with inspections := state.inspections ++ [inspection] } = next :=
      Except.ok.inj reached
    simp [inspects, isInspect, place_of_inspect inspected]
  · have nothing : inspects [token] = [] := by simp [inspects, isInspect]
    rw [nothing]
    cases effect_of_step stepped with
    | nothing | waits | assigns => simp
    | inspects isOther => exact absurd isOther isInspect

/-- A run inspects at its question marks. -/
theorem places_of_walk (walked : (walk verbosity state passed tokens).outcome = .ok final) :
    final.inspections.map Inspection.place =
      state.inspections.map Inspection.place ++ (inspects tokens).map AnnotatedToken.place := by
  induction tokens generalizing state passed with
  | nil =>
    obtain rfl : state = final := Except.ok.inj walked
    simp [inspects]
  | cons token rest inductionHypothesis =>
    simp only [walk, Traced.outcome_bind] at walked
    obtain ⟨next, stepped, goesOn⟩ := Result.bind_eq_ok_iff.mp walked
    have split : inspects (token :: rest) = inspects [token] ++ inspects rest :=
      @Annotations.inspects_append [token] rest
    rw [inductionHypothesis goesOn, places_of_step stepped, split, List.map_append,
      List.append_assoc]

end Places

/-! ## Exchanged statements -/

section Perform

variable {verbosity : Nat} {state final : State}

theorem perform_append (front tail : List (List AnnotatedToken)) :
    perform verbosity state (front ++ tail) =
      perform verbosity state front >>= fun next => perform verbosity next tail := by
  induction front generalizing state with
  | nil => rfl
  | cons statement front inductionHypothesis =>
    simp only [List.cons_append, perform, bind_assoc, inductionHypothesis]

open Annotations (NumberedToken statementTokens)
open Grammar (PlainAssignment)

/-- Two independent assignments among some statements can be exchanged. -/
theorem exists_perform_exchanged {one two : PlainAssignment NumberedToken}
    (independent : (one.map NumberedToken.token).Independent (two.map NumberedToken.token))
    {front tail : List (List AnnotatedToken)}
    (performed : perform verbosity state (front ++ statementTokens [] one.statement ::
      statementTokens [] two.statement :: tail) = .ok final) :
    ∃ other, perform verbosity state (front ++ statementTokens [] two.statement ::
      statementTokens [] one.statement :: tail) = .ok other ∧ Similar [] final other := by
  simp only [perform_append, perform, outcome_walk_assignment] at performed ⊢
  obtain ⟨before, inFront, performed⟩ := Result.bind_eq_ok_iff.mp performed
  obtain ⟨middle, acted, performed⟩ := Result.bind_eq_ok_iff.mp performed
  obtain ⟨after, actedLater, inTail⟩ := Result.bind_eq_ok_iff.mp performed
  obtain ⟨other, turned, otherActed, turnedActed, similar⟩ :=
    Deed.exists_act_exchanged (readsOnly_deedOf one) (readsOnly_deedOf two) independent.distinct
      independent.unread independent.secondUnread acted actedLater
  have later := @similar_perform verbosity _ _ similar tail
  rw [inTail] at later
  obtain ⟨last, inOtherTail, similarLast⟩ := later.ok_left
  refine ⟨last, ?_, similarLast⟩
  simp only [inFront, Result.ok_bind, otherActed, turnedActed, inOtherTail]

end Perform

end Interpretation

/-! ## Exchanged programs -/

section Programs

open Interpretation (perform)
open Annotations
open Grammar

variable {verbosity : Nat}

theorem interpret_eq_ok_iff {written : List AnnotatedToken} {outcome : Outcome} :
    (interpret verbosity written).outcome = .ok outcome ↔
      ∃ final, (Interpretation.walk verbosity {} [] written).outcome = .ok final ∧
        ⟨final.root, final.inspections⟩ = outcome := by
  simp only [interpret, Traced.outcome_bind, Traced.outcome_note, Result.ok_bind,
    Result.bind_eq_ok_iff, Traced.outcome_pure, Except.ok.injEq]

/-- A program runs well if its statements do, one after another. -/
theorem walk_eq_ok_iff_perform {written : List AnnotatedToken} {final : Interpretation.State} :
    (Interpretation.walk verbosity {} [] written).outcome = .ok final ↔
      perform verbosity {} (statements written) = .ok final :=
  (@Interpretation.alike_perform_collect verbosity {} [] [] separated_nil written).ok_iff

theorem places_of_run {tokens : List Token} {outcome : Outcome}
    (ran : runTokens verbosity tokens = .ok outcome) :
    outcome.inspections.map Inspection.place =
      questionPlaces (NumberedToken.ofTokens 0 tokens) := by
  obtain ⟨written, annotated, interpreted⟩ := Result.bind_eq_ok_iff.mp ran
  obtain ⟨-, reads⟩ := annotate_eq_ok_iff.mp annotated
  obtain ⟨final, walked, rfl⟩ := interpret_eq_ok_iff.mp interpreted
  rw [← places_of_reads reads]
  simpa using Interpretation.places_of_walk walked

/-- In the tree of a run no name stands twice. -/
theorem distinct_of_run {tokens : List Token} {outcome : Outcome}
    (ran : runTokens verbosity tokens = .ok outcome) : outcome.root.Distinct := by
  obtain ⟨written, -, interpreted⟩ := Result.bind_eq_ok_iff.mp ran
  obtain ⟨final, walked, rfl⟩ := interpret_eq_ok_iff.mp interpreted
  obtain ⟨all, leads⟩ := @Interpretation.leads_to_end verbosity { rest := written } _ walked
  refine @Interpretation.invariant_of_leads verbosity _ _ (·.state.root.Distinct)
    (fun point next moves distinct => ?_) Scope.distinct_empty leads
  cases moves with
  | step stepped =>
    cases Interpretation.effect_of_step stepped with
    | nothing | waits | inspects => exact distinct
    | assigns _ assigned =>
      obtain ⟨groups, name, -, -, rfl⟩ := Scope.assign_ok assigned
      exact Scope.distinct_put name _ groups distinct

/-- What a program does, another one does that has two independent assignments in the other order
and its tokens at other places. -/
theorem exists_run_exchanged {before after others : List Token}
    {first second : PlainAssignment Token} {lineEnd : Token} {outcome : Outcome}
    (surrounds : Surrounds before after) (firstKinds : first.WellKinded Token.kind)
    (secondKinds : second.WellKinded Token.kind) (isNewline : lineEnd.kind = .newline)
    (independent : first.Independent second)
    (same : others.map Token.unplaced =
      (before ++ second.leaves ++ lineEnd :: (first.leaves ++ after)).map Token.unplaced)
    (ran : runTokens verbosity (before ++ first.leaves ++ lineEnd :: (second.leaves ++ after)) =
      .ok outcome) :
    ∃ other, runTokens verbosity others = .ok other ∧
      outcome.root.SameContents other.root ∧
      outcome.inspections.map Inspection.finding = other.inspections.map Inspection.finding := by
  obtain ⟨written, annotated, interpreted⟩ := Result.bind_eq_ok_iff.mp ran
  obtain ⟨other, otherAnnotated, exchanges⟩ :=
    exists_exchanged surrounds firstKinds secondKinds isNewline annotated same
  obtain @⟨one, two, front, tail, turned, rfl, rfl, inOrder, exchanged, essence⟩ := exchanges
  obtain ⟨final, walked, rfl⟩ := interpret_eq_ok_iff.mp interpreted
  have performed := walk_eq_ok_iff_perform.mp walked
  rw [inOrder] at performed
  obtain ⟨last, turnedPerformed, similar⟩ :=
    Interpretation.exists_perform_exchanged independent performed
  rw [← exchanged] at turnedPerformed
  have turnedRan := interpret_eq_ok_iff.mpr
    ⟨last, walk_eq_ok_iff_perform.mpr turnedPerformed, rfl⟩
  have alike := alike_interpret essence.symm verbosity verbosity
  rw [turnedRan] at alike
  obtain ⟨result, otherRan, sameRoot, findings⟩ := alike.ok_left
  refine ⟨result, ?_, ?_, ?_⟩
  · simp only [runTokens, otherAnnotated, Result.ok_bind, otherRan]
  · exact sameRoot ▸ similar.root
  · rw [← findings, similar.inspections]

/-- Two lines of assignments hold no question mark and no end of the input. -/
theorem plain_lines {first second : PlainAssignment Token} {lineEnd : Token}
    (firstKinds : first.WellKinded Token.kind) (secondKinds : second.WellKinded Token.kind)
    (isNewline : lineEnd.kind = .newline) :
    ∀ token ∈ first.leaves ++ lineEnd :: second.leaves,
      token.kind ≠ .question ∧ token.kind ≠ .endOfInput := by
  have ofAssignment {assignment : PlainAssignment Token}
      (kinds : assignment.WellKinded Token.kind) :
      ∀ token ∈ assignment.leaves, token.kind ≠ .question ∧ token.kind ≠ .endOfInput := by
    intro token member
    refine ⟨assignment_noQuestion kinds token member, fun isEnd => ?_⟩
    have stays := assignment_inLine kinds token member
    rw [isEnd] at stays
    cases stays
  exact List.forall_mem_append.mpr ⟨ofAssignment firstKinds,
    List.forall_mem_cons.mpr ⟨by simp [isNewline], ofAssignment secondKinds⟩⟩

section Exchanged

variable {before after earlier middle later : List Token} {first second : PlainAssignment Token}
  {lineEnd : Token} (surrounds : Surrounds before after)
  (firstKinds : first.WellKinded Token.kind) (secondKinds : second.WellKinded Token.kind)
  (isNewline : lineEnd.kind = .newline)
  (sameBefore : earlier.map Token.unplaced = before.map Token.unplaced)
  (sameMiddle : middle.map Token.unplaced =
    (second.leaves ++ lineEnd :: first.leaves).map Token.unplaced)
  (sameAfter : later.map Token.unplaced = after.map Token.unplaced)

include surrounds firstKinds secondKinds isNewline sameBefore sameMiddle sameAfter

/-- The other program also leads back to the first. -/
theorem exists_run_back (independent : first.Independent second) {outcome : Outcome}
    (ran : runTokens verbosity (earlier ++ middle ++ later) = .ok outcome) :
    ∃ other, runTokens verbosity (before ++ first.leaves ++ lineEnd :: (second.leaves ++ after)) =
      .ok other := by
  obtain ⟨secondRun, _, rfl, sameSecond, sameRest⟩ := List.map_eq_append_iff.mp
    (sameMiddle.trans List.map_append)
  obtain ⟨newline, firstRun, rfl, sameEnd, sameFirst⟩ := List.map_eq_cons_iff.mp sameRest
  obtain ⟨otherFirst, rfl, mappedFirst, otherFirstKinds⟩ :=
    PlainAssignment.exists_elsewhere firstKinds sameFirst
  obtain ⟨otherSecond, rfl, mappedSecond, otherSecondKinds⟩ :=
    PlainAssignment.exists_elsewhere secondKinds sameSecond
  have newlineKind : newline.kind = lineEnd.kind := by
    simpa [Token.unplaced] using congrArg Token.kind sameEnd
  have turned : runTokens verbosity
      (earlier ++ otherSecond.leaves ++ newline :: (otherFirst.leaves ++ later)) = .ok outcome := by
    simpa using ran
  have same : (before ++ first.leaves ++ lineEnd :: (second.leaves ++ after)).map Token.unplaced =
      (earlier ++ otherFirst.leaves ++ newline :: (otherSecond.leaves ++ later)).map
        Token.unplaced := by
    simp [sameBefore, sameFirst, sameEnd, sameSecond, sameAfter]
  obtain ⟨other, otherRan, -⟩ := exists_run_exchanged
    (surrounds.elsewhere sameBefore sameAfter) otherSecondKinds otherFirstKinds
    (newlineKind.trans isNewline) (independent.symm.elsewhere mappedSecond mappedFirst) same turned
  exact ⟨other, otherRan⟩

/-- Neither order of the assignments moves a question mark, if the tokens around them stay on their
lines. -/
theorem questionPlaces_exchanged (linesBefore : earlier.map Token.line = before.map Token.line)
    (linesAfter : later.map Token.line = after.map Token.line) :
    questionPlaces (NumberedToken.ofTokens 0 (earlier ++ middle ++ later)) =
      questionPlaces (NumberedToken.ofTokens 0
        (before ++ (first.leaves ++ lineEnd :: second.leaves) ++ after)) := by
  -- the lines between hold no question mark, and behind them the count starts anew
  have around := surrounds.elsewhere sameBefore sameAfter
  have plain := plain_lines firstKinds secondKinds isNewline
  have plainMiddle : ∀ token ∈ middle, token.kind ≠ .question ∧ token.kind ≠ .endOfInput := by
    intro token member
    have among : token.kind ∈ (second.leaves ++ lineEnd :: first.leaves).map Token.kind := by
      rw [← map_kind_unplaced sameMiddle]
      exact List.mem_map_of_mem member
    obtain ⟨other, inLines, sameKind⟩ := List.mem_map.mp among
    exact sameKind ▸ plain_lines secondKinds firstKinds isNewline other inLines
  rw [questionPlaces_between (List.forall_mem_append.mpr ⟨around.only, fun token member =>
      (plainMiddle token member).2⟩) (fun token member => (plainMiddle token member).1) around.ends,
    questionPlaces_between (List.forall_mem_append.mpr ⟨surrounds.only, fun token member =>
      (plain token member).2⟩) (fun token member => (plain token member).1) surrounds.ends,
    questionPlaces_congr 0 (map_kind_unplaced sameBefore) linesBefore,
    questionPlaces_congr 0 (map_kind_unplaced sameAfter) linesAfter]

end Exchanged

/-- Independent assignments commute.  Let two assignments without question marks stand in
neighbouring lines outside of all blocks, and let neither write where the other one writes or may
read.  Then the program and the one with these lines exchanged both fail, or both succeed with trees
of the same contents, which agree but for undefined numbers.  Their inspections are the same, too,
if the tokens around the two lines stay on their lines, as they do when each assignment is written
on one line of the text. -/
theorem run_exchanged {before after earlier middle later : List Token}
    {first second : PlainAssignment Token} {lineEnd : Token}
    (surrounds : Surrounds before after) (firstKinds : first.WellKinded Token.kind)
    (secondKinds : second.WellKinded Token.kind) (isNewline : lineEnd.kind = .newline)
    (independent : first.Independent second)
    (sameBefore : earlier.map Token.unplaced = before.map Token.unplaced)
    (sameMiddle : middle.map Token.unplaced =
      (second.leaves ++ lineEnd :: first.leaves).map Token.unplaced)
    (sameAfter : later.map Token.unplaced = after.map Token.unplaced) (verbosity : Nat) :
    (∃ failure other,
      runTokens verbosity (before ++ (first.leaves ++ lineEnd :: second.leaves) ++ after) =
        .error failure ∧
      runTokens verbosity (earlier ++ middle ++ later) = .error other) ∨
    ∃ outcome other,
      runTokens verbosity (before ++ (first.leaves ++ lineEnd :: second.leaves) ++ after) =
        .ok outcome ∧
      runTokens verbosity (earlier ++ middle ++ later) = .ok other ∧
      outcome.root.SameContents other.root ∧
      (∀ shared, outcome.root.AgreesWithItself shared [] →
        outcome.root.agrees shared other.root = true) ∧
      (earlier.map Token.line = before.map Token.line →
        later.map Token.line = after.map Token.line → outcome.lines = other.lines) := by
  have tokens : before ++ (first.leaves ++ lineEnd :: second.leaves) ++ after =
      before ++ first.leaves ++ lineEnd :: (second.leaves ++ after) := by simp
  have same : (earlier ++ middle ++ later).map Token.unplaced =
      (before ++ second.leaves ++ lineEnd :: (first.leaves ++ after)).map Token.unplaced := by
    simp [sameBefore, sameMiddle, sameAfter]
  cases ran : runTokens verbosity (before ++ (first.leaves ++ lineEnd :: second.leaves) ++ after) with
  | error failure =>
    cases otherRan : runTokens verbosity (earlier ++ middle ++ later) with
    | error other => exact .inl ⟨failure, other, rfl, rfl⟩
    | ok other =>
      obtain ⟨outcome, backRan⟩ := exists_run_back surrounds firstKinds secondKinds isNewline
        sameBefore sameMiddle sameAfter independent otherRan
      rw [← tokens, ran] at backRan
      cases backRan
  | ok outcome =>
    rw [tokens] at ran
    obtain ⟨other, otherRan, sameContents, findings⟩ := exists_run_exchanged surrounds firstKinds
      secondKinds isNewline independent same ran
    rw [← tokens] at ran
    refine .inr ⟨outcome, other, rfl, otherRan, sameContents, fun shared => sameContents.agrees
      (distinct_of_run ran) (distinct_of_run otherRan), fun linesBefore linesAfter => ?_⟩
    refine texts_eq ?_ findings
    rw [places_of_run ran, places_of_run otherRan]
    exact (questionPlaces_exchanged surrounds firstKinds secondKinds isNewline sameBefore sameMiddle
      sameAfter linesBefore linesAfter).symm

/-! ### Two lines -/

/-- The assignment of a number to a name on a line. -/
def numberLine (name number : String) (line : Int) : PlainAssignment Token :=
  ⟨⟨⟨[], ⟨.identifier, name, line, 1⟩⟩, [], none⟩, ⟨.equals, "=", line, 3⟩,
    .single (.literal ⟨.int, number, line, 5⟩)⟩

/-- A line that inspects a name, and the end of the input. -/
def inspectionLine (name : String) (line : Int) : List Token :=
  [⟨.newline, "\n", line - 1, 6⟩, ⟨.identifier, name, line, 1⟩, ⟨.question, "?", line, 2⟩,
    ⟨.endOfInput, "", line, 3⟩]

theorem wellKinded_numberLine (name number : String) (line : Int) :
    (numberLine name number line).WellKinded Token.kind := by
  simp [numberLine, PlainAssignment.WellKinded, Definition.WellKinded, Grammar.Path.WellKinded,
    Modifiers, RightHandSide.WellKinded, Operand.WellKinded, TokenKind.isLiteral]

theorem surrounds_inspectionLine (name : String) (line : Int) :
    Surrounds [] (inspectionLine name line) :=
  ⟨by simp, by simp, by simp, _, _, rfl, .inl rfl⟩

theorem run_exchanged_numbers :
    (numberLine "x" "1" 1).Independent (numberLine "y" "2" 2) ∧
    ∃ outcome other,
      runTokens 0 ([] ++ ((numberLine "x" "1" 1).leaves ++ ⟨.newline, "\n", 1, 6⟩ ::
        (numberLine "y" "2" 2).leaves) ++ inspectionLine "x" 3) = .ok outcome ∧
      runTokens 0 ([] ++ ((numberLine "y" "2" 1).leaves ++ ⟨.newline, "\n", 1, 6⟩ ::
        (numberLine "x" "1" 2).leaves) ++ inspectionLine "x" 3) = .ok other ∧
      outcome.root.SameContents other.root ∧ outcome.lines = other.lines := by
  have independent : (numberLine "x" "1" 1).Independent (numberLine "y" "2" 2) :=
    ⟨by decide, id, id⟩
  obtain ⟨result, runs⟩ : ∃ result, runTokens 0 ([] ++ ((numberLine "x" "1" 1).leaves ++
      ⟨.newline, "\n", 1, 6⟩ :: (numberLine "y" "2" 2).leaves) ++ inspectionLine "x" 3) =
        .ok result := ⟨_, rfl⟩
  refine ⟨independent, ?_⟩
  have exchanged := @run_exchanged [] (inspectionLine "x" 3) []
    ((numberLine "y" "2" 1).leaves ++ ⟨.newline, "\n", 1, 6⟩ :: (numberLine "x" "1" 2).leaves)
    (inspectionLine "x" 3) _ _ ⟨.newline, "\n", 1, 6⟩ (surrounds_inspectionLine "x" 3)
    (wellKinded_numberLine "x" "1" 1) (wellKinded_numberLine "y" "2" 2) rfl independent
    rfl rfl rfl 0
  rcases exchanged with ⟨failure, -, fails, -⟩ | ⟨outcome, other, ran, otherRan, same, -, lines⟩
  · rw [runs] at fails
    cases fails
  · exact ⟨outcome, other, ran, otherRan, same, lines rfl rfl⟩

end Programs

end ParaLang
