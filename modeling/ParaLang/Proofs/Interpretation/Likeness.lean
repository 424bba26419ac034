import ParaLang.Proofs.Expression.Names
import ParaLang.Proofs.Interpretation.Runs
import ParaLang.Proofs.Interpretation.Steps
import ParaLang.Proofs.Scope.Likeness

/-! # Runs from similar states

States are similar if their trees have the same contents and they agree on everything that a later
step can read.  The value of the latest expression is read by a question mark right behind it and
nowhere else.  Steps keep states similar, and so do whole runs. -/

namespace ParaLang.Interpretation

/-- Nothing behind the passed tokens tells the states apart. -/
structure Similar (passed : List AnnotatedToken) (state other : State) : Prop where
  root : state.root.SameContents other.root
  inspections : state.inspections = other.inspections
  pending : state.pending = other.pending
  result : ∀ last ∈ passed.head?, last.role = .expression → state.result = other.result

section Steps

variable {verbosity : Nat} {state other : State} {passed rest : List AnnotatedToken}
  {token : AnnotatedToken}

/-- Behind another token the latest expression is out of sight. -/
theorem Similar.over (similar : Similar passed state other) (quiet : token.role ≠ .expression) :
    Similar (token :: passed) state other :=
  { similar with result := by simpa using fun isExpression => absurd isExpression quiet }

/-- At the start of a statement nothing has been passed. -/
theorem Similar.fresh (similar : Similar passed state other) : Similar [] state other :=
  { similar with result := by simp }

/-! ## Steps -/

theorem valueAfter_similar (same : state.root.SameContents other.root) (target : Target) :
    (valueAfter verbosity state.root target token rest).outcome =
      (valueAfter verbosity other.root target token rest).outcome := by
  have resolved (path : List String) (place : AnnotatedToken) :
      (resolveReference verbosity state.root target path place).outcome =
        (resolveReference verbosity other.root target path place).outcome := by
    simp only [outcome_resolveReference, same.resolve]
  cases rest with
  | nil => rfl
  | cons first rest =>
    simp only [valueAfter]
    split
    · rfl
    · split
      · simp only [Traced.outcome_bind, resolved]
      · rfl

theorem similar_commit (similar : Similar passed state other) (target : Target)
    (value : Option Value) :
    Alike (Similar passed) (commit verbosity state target value).outcome
      (commit verbosity other target value).outcome := by
  rw [outcome_commit, outcome_commit]
  have assigned := similar.root.assign (target.assignment value)
  revert assigned
  cases state.root.assign (target.assignment value) <;>
    cases other.root.assign (target.assignment value) <;> intro assigned
  case error.error => exact assigned
  case ok.ok => exact { similar with root := assigned.2 }
  all_goals cases assigned

theorem similar_inspect (similar : Similar passed state other) (place : AnnotatedToken) :
    inspect state place passed = inspect other place passed := by
  have onPath : inspectPath state.root place passed = inspectPath other.root place passed := by
    simp only [inspectPath, similar.root.sameVariables]
  cases passed with
  | nil => simp only [inspect, onPath]
  | cons last earlier =>
    simp only [inspect, onPath]
    by_cases isExpression : last.role = .expression
    · rw [similar.result last rfl isExpression]
    · split
      · rfl
      · split
        · contradiction
        · split
          · contradiction
          · rfl

/-- A step from similar states succeeds in both and leads to similar states, or fails in both. -/
theorem similar_step (similar : Similar passed state other) :
    Alike (Similar (token :: passed)) (step verbosity state passed token rest).outcome
      (step verbosity other passed token rest).outcome := by
  cases role : token.role with
  | assign =>
    have quiet : token.role ≠ .expression := by simp [role]
    rw [outcome_step_assign role, outcome_step_assign role]
    refine Alike.refl.bind_eq fun target => ?_
    split
    · exact { similar.over quiet with pending := rfl }
    · rw [valueAfter_similar similar.root]
      exact Alike.refl.bind_eq fun value => similar_commit (similar.over quiet) target value
  | expression =>
    cases otherPending : other.pending with
    | none =>
      rw [outcome_step_unassigned role (similar.pending.trans otherPending),
        outcome_step_unassigned role otherPending]
      exact rfl
    | some target =>
      have pending := similar.pending.trans otherPending
      cases carries : token.expression with
      | none =>
        rw [outcome_step_missing role pending carries,
          outcome_step_missing role otherPending carries]
        exact rfl
      | some run =>
        have evaluated : (Expression.evaluate verbosity state.root run).outcome =
            (Expression.evaluate verbosity other.root run).outcome :=
          @Expression.evaluate_congr (fun _ => True) run _ _
            (fun name _ => similar.root.sameVariables [name]) verbosity fun _ _ _ => trivial
        rw [outcome_step_evaluated role pending carries,
          outcome_step_evaluated role otherPending carries, evaluated]
        refine Alike.refl.bind_eq fun value => ?_
        have waiting : Similar (token :: passed)
            { state with pending := none, result := value }
            { other with pending := none, result := value } :=
          ⟨similar.root, similar.inspections, rfl, fun _ _ _ => rfl⟩
        exact similar_commit waiting target value
  | inspect =>
    have quiet : token.role ≠ .expression := by simp [role]
    rw [outcome_step_inspect role, outcome_step_inspect role, similar_inspect similar token]
    refine Alike.refl.bind_eq fun inspection => ?_
    exact { similar.over quiet with inspections := by rw [similar.inspections] }
  | _ =>
    rw [outcome_step_quiet (by simp [isQuiet, role]),
      outcome_step_quiet (by simp [isQuiet, role])]
    exact similar.over (by simp [role])

/-! ## Runs -/

theorem similar_walk (similar : Similar passed state other) (tokens : List AnnotatedToken) :
    Alike (Similar []) (walk verbosity state passed tokens).outcome
      (walk verbosity other passed tokens).outcome := by
  induction tokens generalizing state other passed with
  | nil => exact similar.fresh
  | cons token rest inductionHypothesis =>
    simp only [walk, Traced.outcome_bind]
    exact (similar_step similar).bind fun _ _ later => inductionHypothesis later

/-- Some statements do the same from similar states. -/
theorem similar_perform (similar : Similar [] state other)
    (statements : List (List AnnotatedToken)) :
    Alike (Similar []) (perform verbosity state statements)
      (perform verbosity other statements) := by
  induction statements generalizing state other with
  | nil => exact similar
  | cons statement statements inductionHypothesis =>
    exact (similar_walk similar statement).bind fun _ _ later => inductionHypothesis later

end Steps

end ParaLang.Interpretation
