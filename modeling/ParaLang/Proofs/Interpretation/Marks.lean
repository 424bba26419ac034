import ParaLang.Proofs.Interpretation.Steps
import ParaLang.Proofs.Expression.Evaluation
import ParaLang.Proofs.Scope.Images

/-! # Marks that a run never reads

The marks `temp` and `const` of a name say how a variable is listed and kept, and nothing else.  A
run over a program without its marks does what the run over the program does, on trees without
marks: each part of a step is shown to go through with the marks taken off before or after it. -/

namespace ParaLang

/-! ## Taking off marks -/

namespace AnnotatedToken

/-- The token itself without its marks. -/
def withoutMarks (token : AnnotatedToken) : AnnotatedToken :=
  { token with temp := false, const := false }

/-- The token without its marks and without those of its items. -/
def unmarked (token : AnnotatedToken) : AnnotatedToken :=
  { token.withoutMarks with expression := token.expression.map (List.map withoutMarks) }

variable (token : AnnotatedToken)

@[simp] theorem role_withoutMarks : token.withoutMarks.role = token.role := rfl

@[simp] theorem literal_withoutMarks : token.withoutMarks.literal = token.literal := rfl

@[simp] theorem value_withoutMarks : token.withoutMarks.value = token.value := rfl

@[simp] theorem place_withoutMarks : token.withoutMarks.place = token.place := rfl

@[simp] theorem role_unmarked : token.unmarked.role = token.role := rfl

@[simp] theorem literal_unmarked : token.unmarked.literal = token.literal := rfl

@[simp] theorem isSegment_unmarked : token.unmarked.isSegment = token.isSegment := rfl

end AnnotatedToken

def Variable.unmarked (entry : Variable) : Variable :=
  { entry with temp := false }

def Scope.unmarked (root : Scope) : Scope :=
  root.mapVariables Variable.unmarked

def Assignment.unmarked (assignment : Assignment) : Assignment :=
  { assignment with temp := false }

def Target.unmarked (target : Target) : Target :=
  { target with temp := false }

def Interpretation.State.unmarked (state : State) : State :=
  { state with root := state.root.unmarked, pending := state.pending.map Target.unmarked }

def Outcome.unmarked (outcome : Outcome) : Outcome :=
  { outcome with root := outcome.root.unmarked }

/-! ## Expressions -/

namespace Expression

open AnnotatedToken (withoutMarks)

theorem release_withoutMarks (symbol : String) (stack : List AnnotatedToken) :
    release symbol (stack.map withoutMarks) =
      Prod.map (List.map withoutMarks) (List.map withoutMarks) <$> release symbol stack := by
  induction stack with
  | nil => rfl
  | cons top below inductionHypothesis =>
    simp only [List.map_cons, release, AnnotatedToken.role_withoutMarks,
      AnnotatedToken.literal_withoutMarks, inductionHypothesis]
    split
    · simp only [map_bind]
      congr 1
      funext waiting
      congr 1
      funext own
      split
      · simp only [map_bind, bind_map_left]
        rfl
      · rfl
    · rfl

theorem unwind_withoutMarks (stack : List AnnotatedToken) :
    unwind (stack.map withoutMarks) = List.map withoutMarks <$> unwind stack := by
  induction stack with
  | nil => rfl
  | cons top below inductionHypothesis =>
    simp only [List.map_cons, unwind, AnnotatedToken.role_withoutMarks,
      AnnotatedToken.place_withoutMarks, inductionHypothesis]
    split
    · rfl
    · simp only [map_bind, bind_map_left]
      rfl

theorem arrange_withoutMarks (previous : Option Role) (stack tokens : List AnnotatedToken) :
    arrange previous (stack.map withoutMarks) (tokens.map withoutMarks) =
      List.map withoutMarks <$> arrange previous stack tokens := by
  induction tokens generalizing previous stack with
  | nil => exact unwind_withoutMarks stack
  | cons token rest inductionHypothesis =>
    have sign : negation token.withoutMarks :: stack.map withoutMarks =
        (negation token :: stack).map withoutMarks := rfl
    have waits : token.withoutMarks :: stack.map withoutMarks =
        (token :: stack).map withoutMarks := rfl
    rw [List.map_cons, arrange, arrange, AnnotatedToken.role_withoutMarks,
      AnnotatedToken.literal_withoutMarks, AnnotatedToken.place_withoutMarks]
    split
    case h_1 | h_2 =>
      simp only [inductionHypothesis, map_bind, bind_map_left]
      rfl
    case h_3 =>
      by_cases plus : expectsOperand previous ∧ token.literal = "+"
      · rw [if_pos plus, if_pos plus]
        exact inductionHypothesis _ stack
      · rw [if_neg plus, if_neg plus]
        by_cases minus : expectsOperand previous ∧ token.literal = "-"
        · rw [if_pos minus, if_pos minus, sign]
          exact inductionHypothesis _ (negation token :: stack)
        · rw [if_neg minus, if_neg minus]
          simp only [release_withoutMarks, map_bind, bind_map_left]
          congr 1
          funext ⟨released, below⟩
          have onStack : token.withoutMarks :: below.map withoutMarks =
              (token :: below).map withoutMarks := rfl
          simp only [Prod.map, onStack, inductionHypothesis, bind_map_left]
          simp
    case h_4 =>
      rw [waits]
      exact inductionHypothesis _ (token :: stack)
    case h_5 =>
      rw [List.dropWhile_map, List.takeWhile_map]
      simp only [Function.comp_def, AnnotatedToken.role_withoutMarks]
      cases stack.dropWhile (·.role != .leftParen) with
      | nil => rfl
      | cons opening below =>
        simp only [List.map_cons, inductionHypothesis, map_bind, bind_map_left]
        simp
    all_goals rfl

section Evaluation

variable (root : Scope) (stack : Operands)

theorem push_withoutMarks (token : AnnotatedToken) :
    push root.unmarked stack token.withoutMarks = push root stack token := by
  unfold push
  simp only [AnnotatedToken.role_withoutMarks, AnnotatedToken.literal_withoutMarks,
    AnnotatedToken.value_withoutMarks, AnnotatedToken.place_withoutMarks, Scope.unmarked,
    Scope.entries_mapVariables, Table.get?_mapEntries]
  cases Table.get? root.entries token.literal <;> rfl

theorem pushAll_withoutMarks (tokens : List AnnotatedToken) :
    pushAll root.unmarked stack (tokens.map withoutMarks) = pushAll root stack tokens := by
  induction tokens generalizing stack with
  | nil => rfl
  | cons token rest inductionHypothesis =>
    simp only [List.map_cons, pushAll, push_withoutMarks, inductionHypothesis]

theorem evaluatePostfix_withoutMarks (tokens : List AnnotatedToken) :
    evaluatePostfix root.unmarked (tokens.map withoutMarks) = evaluatePostfix root tokens := by
  unfold evaluatePostfix
  rw [pushAll_withoutMarks, List.head?_map, List.getLast?_map]
  cases tokens.head? <;> cases tokens.getLast? <;> rfl

theorem evaluate_withoutMarks (verbosity otherVerbosity : Nat) (run : List AnnotatedToken) :
    (evaluate otherVerbosity root.unmarked (run.map withoutMarks)).outcome =
      (evaluate verbosity root run).outcome := by
  have arranged := arrange_withoutMarks none [] run
  rw [List.map_nil] at arranged
  simp only [outcome_evaluate, toPostfix, arranged, bind_map_left, evaluatePostfix_withoutMarks]

end Evaluation

end Expression

open AnnotatedToken (unmarked role_unmarked literal_unmarked isSegment_unmarked)

/-! ## Paths -/

section Paths

variable (tokens : List AnnotatedToken)

theorem pathTail_unmarked : pathTail (tokens.map unmarked) = pathTail tokens := by
  induction tokens using pathTail.induct with
  | case1 arrow segment rest links inductionHypothesis =>
    rw [List.map_cons, List.map_cons, pathTail, pathTail, role_unmarked, isSegment_unmarked,
      literal_unmarked, if_pos links, if_pos links, inductionHypothesis]
  | case2 arrow segment rest apart =>
    rw [List.map_cons, List.map_cons, pathTail, pathTail, role_unmarked, isSegment_unmarked,
      if_neg apart, if_neg apart]
  | case3 tokens short =>
    match tokens, short with
    | [], _ => rfl
    | [_], _ => rfl
    | arrow :: segment :: rest, short => exact absurd rfl (short arrow segment rest)

theorem pathAt_unmarked : pathAt (tokens.map unmarked) = pathAt tokens := by
  cases tokens with
  | nil => rfl
  | cons token rest =>
    rw [List.map_cons, pathAt, pathAt, pathTail_unmarked, isSegment_unmarked, literal_unmarked]

theorem pathBefore_unmarked : pathBefore (tokens.map unmarked) = pathBefore tokens := by
  rw [pathBefore, pathBefore, pathAt_unmarked]

end Paths

/-! ## Steps -/

theorem Scope.assign_unmarked (root : Scope) (assignment : Assignment) :
    root.unmarked.assign assignment.unmarked =
      Prod.map Variable.unmarked Scope.unmarked <$> root.assign assignment := by
  rcases List.eq_nil_or_concat' assignment.path with empty | ⟨groups, name, ends⟩
  · rw [assign_nil empty, @assign_nil assignment.unmarked empty]
    rfl
  · have written : entryFor (root.unmarked.find? assignment.path) name assignment.unmarked =
        Variable.unmarked <$> entryFor (root.find? assignment.path) name assignment := by
      have coerced : coerceFor assignment.unmarked = coerceFor assignment := rfl
      rw [unmarked, find?_mapVariables, entryFor, entryFor, coerced]
      cases root.find? assignment.path with
      | none => cases coerceFor assignment <;> rfl
      | some current =>
        cases mutable : current.mutable with
        | false => simp [Variable.unmarked, mutable, Assignment.unmarked, fail]
        | true =>
          cases coerceFor assignment <;>
            simp [Variable.unmarked, mutable, Assignment.unmarked]
    rw [assign_eq ends, @assign_eq assignment.unmarked groups name ends]
    change entryFor (root.unmarked.find? assignment.path) name assignment.unmarked >>= _ = _
    rw [written]
    cases entryFor (root.find? assignment.path) name assignment with
    | error failure => rfl
    | ok entry =>
      show Except.ok (entry.unmarked, root.unmarked.put name entry.unmarked groups) = _
      rw [unmarked, put_mapVariables]
      rfl

namespace Interpretation

variable (verbosity otherVerbosity : Nat)

theorem targetBefore_unmarked (assign : AnnotatedToken) (passed : List AnnotatedToken) :
    targetBefore assign.unmarked (passed.map unmarked) =
      Target.unmarked <$> targetBefore assign passed := by
  have endingAt (type : Option String) (passed : List AnnotatedToken) :
      targetEndingAt type assign.unmarked (passed.map unmarked) =
        Target.unmarked <$> targetEndingAt type assign passed := by
    cases passed with
    | nil => rfl
    | cons name passed =>
      have path := pathBefore_unmarked (name :: passed)
      rw [List.map_cons] at path
      rw [List.map_cons, targetEndingAt, targetEndingAt, role_unmarked, path]
      by_cases isName : name.role = .identifier
      · rw [if_pos isName, if_pos isName]
        rfl
      · rw [if_neg isName, if_neg isName]
        rfl
  cases passed with
  | nil => rfl
  | cons last earlier =>
    rw [List.map_cons, targetBefore, targetBefore, role_unmarked]
    by_cases isType : last.role = .type
    · rw [if_pos isType, if_pos isType]
      exact endingAt last.type earlier
    · rw [if_neg isType, if_neg isType]
      exact endingAt none (last :: earlier)

theorem resolveReference_unmarked (root : Scope) (target : Target) (path : List String)
    (place : AnnotatedToken) :
    (resolveReference otherVerbosity root.unmarked target.unmarked path place.unmarked).outcome =
      Variable.unmarked <$> (resolveReference verbosity root target path place).outcome := by
  have resolved (path : List String) :
      root.unmarked.resolve path place.unmarked.line place.unmarked.number =
        Variable.unmarked <$> root.resolve path place.line place.number :=
    Scope.resolve_mapVariables _ _ _ _ _
  have samePath : target.unmarked.path = target.path := rfl
  rw [outcome_resolveReference, outcome_resolveReference, resolved, resolved, samePath]
  cases root.resolve path place.line place.number with
  | ok found => rfl
  | error failure =>
    simp only [Result.map_error, Result.error_tryCatch]
    split
    · rfl
    · rfl

theorem valueAfter_unmarked (root : Scope) (target : Target) (assign : AnnotatedToken)
    (rest : List AnnotatedToken) :
    (valueAfter otherVerbosity root.unmarked target.unmarked assign.unmarked
        (rest.map unmarked)).outcome =
      (valueAfter verbosity root target assign rest).outcome := by
  cases rest with
  | nil => rfl
  | cons token rest =>
    have path := pathAt_unmarked (token :: rest)
    rw [List.map_cons] at path
    rw [List.map_cons, valueAfter, valueAfter, role_unmarked, isSegment_unmarked, path]
    by_cases isValue : token.role = .value
    · rw [if_pos isValue, if_pos isValue]
      rfl
    · rw [if_neg isValue, if_neg isValue]
      by_cases isSegment : token.isSegment
      · rw [if_pos isSegment, if_pos isSegment]
        simp only [Traced.outcome_bind, Traced.outcome_pure,
          resolveReference_unmarked verbosity otherVerbosity, bind_map_left]
        rfl
      · rw [if_neg isSegment, if_neg isSegment]
        rfl

theorem commit_unmarked (state : State) (target : Target) (value : Option Value) :
    (commit otherVerbosity state.unmarked target.unmarked value).outcome =
      State.unmarked <$> (commit verbosity state target value).outcome := by
  have assigned := state.root.assign_unmarked
    { path := target.path, value := value, type := target.type, mutable := target.mutable
      temp := target.temp, line := target.line, token := target.number }
  simp only [commit, Traced.outcome_bind, Traced.outcome_note, Traced.outcome_lift,
    Traced.outcome_pure, Result.ok_bind, map_bind]
  refine (congrArg (· >>= _) assigned).trans ?_
  rw [bind_map_left]
  rfl

theorem inspectPath_unmarked (root : Scope) (place : AnnotatedToken)
    (passed : List AnnotatedToken) :
    inspectPath root.unmarked place.unmarked (passed.map unmarked) =
      inspectPath root place passed := by
  simp only [inspectPath, pathBefore_unmarked, Scope.unmarked, Scope.find?_mapVariables]
  split
  · rfl
  · cases root.find? (pathBefore passed) <;> rfl

theorem inspect_unmarked (state : State) (place : AnnotatedToken)
    (passed : List AnnotatedToken) :
    inspect state.unmarked place.unmarked (passed.map unmarked) = inspect state place passed := by
  cases passed with
  | nil => rfl
  | cons last earlier =>
    have onPath := inspectPath_unmarked state.root place (last :: earlier)
    rw [List.map_cons] at onPath
    rw [List.map_cons, inspect, inspect, role_unmarked]
    by_cases isValue : last.role = .value
    · rw [if_pos isValue, if_pos isValue]
      rfl
    · rw [if_neg isValue, if_neg isValue]
      simp only [State.unmarked, onPath]
      rfl

/-- A step does the same without marks. -/
theorem step_unmarked (state : State) (passed : List AnnotatedToken) (token : AnnotatedToken)
    (rest : List AnnotatedToken) :
    (step otherVerbosity state.unmarked (passed.map unmarked) token.unmarked
        (rest.map unmarked)).outcome =
      State.unmarked <$> (step verbosity state passed token rest).outcome := by
  cases role : token.role with
  | assign =>
    have ahead : (rest.map unmarked).head?.any (·.role == .expression) =
        rest.head?.any (·.role == .expression) := by
      cases rest <;> rfl
    rw [outcome_step_assign role, outcome_step_assign ((role_unmarked token).trans role), ahead,
      targetBefore_unmarked]
    simp only [map_bind, bind_map_left]
    congr 1
    funext target
    by_cases expression : rest.head?.any (·.role == .expression) = true
    · rw [if_pos expression, if_pos expression]
      rfl
    · rw [if_neg expression, if_neg expression]
      show ((valueAfter otherVerbosity state.root.unmarked target.unmarked token.unmarked
        (rest.map unmarked)).outcome >>= _) = _
      rw [valueAfter_unmarked verbosity otherVerbosity]
      simp only [commit_unmarked verbosity otherVerbosity, map_bind]
  | expression =>
    have roleUnmarked := (role_unmarked token).trans role
    cases pending : state.pending with
    | none =>
      have nothing : state.unmarked.pending = none := by simp [State.unmarked, pending]
      rw [outcome_step_unassigned role pending, outcome_step_unassigned roleUnmarked nothing]
      rfl
    | some target =>
      have waits : state.unmarked.pending = some target.unmarked := by
        rw [State.unmarked, pending]
        rfl
      cases expression : token.expression with
      | none =>
        have nothing : token.unmarked.expression = none := by simp [unmarked, expression]
        rw [outcome_step_missing role pending expression,
          outcome_step_missing roleUnmarked waits nothing]
        rfl
      | some run =>
        have items : token.unmarked.expression = some (run.map AnnotatedToken.withoutMarks) := by
          rw [unmarked, expression]
          rfl
        rw [outcome_step_evaluated role pending expression,
          outcome_step_evaluated roleUnmarked waits items, map_bind]
        show ((Expression.evaluate otherVerbosity state.root.unmarked _).outcome >>= _) = _
        rw [Expression.evaluate_withoutMarks state.root verbosity otherVerbosity run]
        congr 1
        funext value
        exact commit_unmarked verbosity otherVerbosity
          { state with pending := none, result := value } target value
  | inspect =>
    rw [outcome_step_inspect role, outcome_step_inspect ((role_unmarked token).trans role),
      inspect_unmarked, map_bind]
    rfl
  | _ =>
    rw [outcome_step_quiet (by simp [isQuiet, role]),
      outcome_step_quiet (by simp [isQuiet, role])]
    rfl

/-- So does a whole run. -/
theorem walk_unmarked (state : State) (passed tokens : List AnnotatedToken) :
    (walk otherVerbosity state.unmarked (passed.map unmarked) (tokens.map unmarked)).outcome =
      State.unmarked <$> (walk verbosity state passed tokens).outcome := by
  induction tokens generalizing state passed with
  | nil => rfl
  | cons token rest inductionHypothesis =>
    simp only [List.map_cons, walk, Traced.outcome_bind, map_bind,
      step_unmarked verbosity otherVerbosity, bind_map_left]
    congr 1
    funext next
    exact inductionHypothesis next (token :: passed)

end Interpretation

/-! ## Whole programs -/

theorem interpret_unmarked (verbosity otherVerbosity : Nat) (tokens : List AnnotatedToken) :
    (interpret otherVerbosity (tokens.map unmarked)).outcome =
      Outcome.unmarked <$> (interpret verbosity tokens).outcome := by
  simp only [interpret, Traced.outcome_bind, Traced.outcome_note, Traced.outcome_pure,
    Result.ok_bind, map_bind]
  refine (congrArg (· >>= _) (Interpretation.walk_unmarked verbosity otherVerbosity {} []
    tokens)).trans ?_
  rw [bind_map_left]
  rfl

/-- Programs that differ at most in the marks of their tokens fail with the same failure, or they
report the same and leave trees that differ at most in the marks of their variables. -/
theorem interpret_ignores_marks {tokens others : List AnnotatedToken}
    (same : tokens.map unmarked = others.map unmarked) (verbosity otherVerbosity : Nat) :
    (∃ failure, (interpret verbosity tokens).outcome = .error failure ∧
        (interpret otherVerbosity others).outcome = .error failure) ∨
      ∃ outcome other, (interpret verbosity tokens).outcome = .ok outcome ∧
        (interpret otherVerbosity others).outcome = .ok other ∧
        outcome.inspections = other.inspections ∧ outcome.lines = other.lines ∧
        outcome.root.unmarked = other.root.unmarked := by
  have left := interpret_unmarked verbosity 0 tokens
  have right := interpret_unmarked otherVerbosity 0 others
  rw [same, right] at left
  cases first : (interpret verbosity tokens).outcome with
  | error failure =>
    cases second : (interpret otherVerbosity others).outcome with
    | error other =>
      rw [first, second] at left
      cases left
      exact .inl ⟨failure, rfl, rfl⟩
    | ok other =>
      rw [first, second] at left
      cases left
  | ok outcome =>
    cases second : (interpret otherVerbosity others).outcome with
    | error failure =>
      rw [first, second] at left
      cases left
    | ok other =>
      rw [first, second] at left
      have images : other.unmarked = outcome.unmarked := Except.ok.inj left
      have inspections : outcome.inspections = other.inspections :=
        (congrArg Outcome.inspections images).symm
      have lines : outcome.lines = other.lines :=
        congrArg (List.map Inspection.text) inspections
      have trees : outcome.root.unmarked = other.root.unmarked :=
        (congrArg Outcome.root images).symm
      exact .inr ⟨outcome, other, rfl, rfl, inspections, lines, trees⟩

/-- A temporary variable that is reassigned and inspected, and the same program with the mark on the
second name alone: the trees differ in the mark of the variable. -/
theorem interpret_ignores_marks_moved :
    let source : List Token := [⟨.identifier, "x", 1, 1⟩, ⟨.muta, "muta", 1, 3⟩,
      ⟨.temp, "temp", 1, 8⟩, ⟨.equals, "=", 1, 13⟩, ⟨.int, "1", 1, 15⟩, ⟨.newline, "\n", 1, 16⟩,
      ⟨.identifier, "x", 2, 1⟩, ⟨.equals, "=", 2, 3⟩, ⟨.minus, "-", 2, 5⟩,
      ⟨.identifier, "x", 2, 6⟩, ⟨.question, "?", 2, 8⟩, ⟨.endOfInput, "", 2, 9⟩]
    let written := (annotate source).toOption.getD []
    let others := written.map fun token => { token with temp := !token.temp, const := !token.const }
    annotate source = .ok written ∧ written.map unmarked = others.map unmarked ∧
      ∃ outcome other, (interpret 0 written).outcome = .ok outcome ∧
        (interpret 3 others).outcome = .ok other ∧ outcome.inspections = other.inspections ∧
        outcome.lines = other.lines ∧ outcome.root.unmarked = other.root.unmarked ∧
        (outcome.root.find? ["x"]).map (·.temp) = some true ∧
        (other.root.find? ["x"]).map (·.temp) = some false := by
  intro source written others
  have annotated : annotate source = .ok written := rfl
  have same : written.map unmarked = others.map unmarked := rfl
  rcases interpret_ignores_marks same 0 3 with ⟨failure, failed, -⟩ |
    ⟨outcome, other, ran, otherRan, inspections, lines, trees⟩
  · cases failed
  · cases ran
    cases otherRan
    exact ⟨annotated, same, _, _, rfl, rfl, inspections, lines, trees, rfl, rfl⟩

end ParaLang
