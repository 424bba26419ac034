import Mathlib.Logic.Relation
import ParaLang.Interpretation
import ParaLang.Proofs.Result

/-! # What a step can do

A step that succeeds does one of five things to the state, and only an assignment whose value is
there changes the tree.  The points of a run are what its steps lead to from the start. -/

namespace ParaLang

/-- The assignment of a value to a target. -/
def Target.assignment (target : Target) (value : Option Value) : Assignment :=
  { path := target.path, value := value, type := target.type, mutable := target.mutable
    temp := target.temp, line := target.line, token := target.number }

namespace Interpretation

variable {verbosity : Nat} {state next : State} {target : Target} {value : Option Value}
  {token : AnnotatedToken} {passed rest : List AnnotatedToken}

/-! ## Targets -/

/-- A target is named by the token in front of the `=`, or in front of the type between them. -/
theorem targetBefore_ok {assign : AnnotatedToken} (aims : targetBefore assign passed = .ok target) :
    ∃ clause name front, passed = clause ++ name :: front ∧ name.role = .identifier ∧
      (∀ token ∈ clause, token.role = .type) ∧ target.path = pathBefore (name :: front) ∧
      target.mutable = name.mutable ∧ target.temp = name.temp := by
  have ending {type : Option String} {before : List AnnotatedToken}
      (ends : targetEndingAt type assign before = .ok target) :
      ∃ name front, before = name :: front ∧ name.role = .identifier ∧
        target.path = pathBefore (name :: front) ∧ target.mutable = name.mutable ∧
        target.temp = name.temp := by
    cases before with
    | nil => cases ends
    | cons name front =>
      by_cases isName : name.role = .identifier
      · rw [targetEndingAt, if_pos isName] at ends
        cases ends
        exact ⟨name, front, rfl, isName, rfl, rfl, rfl⟩
      · rw [targetEndingAt, if_neg isName] at ends
        cases ends
  cases passed with
  | nil => cases aims
  | cons last earlier =>
    by_cases isType : last.role = .type
    · rw [targetBefore, if_pos isType] at aims
      obtain ⟨name, front, rfl, isName, aimed⟩ := ending aims
      exact ⟨[last], name, front, rfl, isName, by simpa using isType, aimed⟩
    · rw [targetBefore, if_neg isType] at aims
      obtain ⟨name, front, isPassed, isName, aimed⟩ := ending aims
      exact ⟨[], name, front, isPassed, isName, by simp, aimed⟩

/-! ## Resolving and committing -/

/-- Where a reference leads is no matter of the verbosity: a path that leads nowhere may be tried
again without the scopes of the target. -/
theorem outcome_resolveReference (verbosity : Nat) (root : Scope) (target : Target)
    (path : List String) (place : AnnotatedToken) :
    (resolveReference verbosity root target path place).outcome =
      (root.resolve path place.line place.number).tryCatch fun failure =>
        if !failure.isNotFound ∨ target.path.dropLast = [] ∨
            path.length ≤ target.path.dropLast.length ∨
            path.take target.path.dropLast.length ≠ target.path.dropLast then .error failure
        else root.resolve (path.drop target.path.dropLast.length) place.line place.number := by
  simp only [resolveReference, Traced.outcome_bind, Traced.outcome_note, Result.ok_bind]
  cases root.resolve path place.line place.number with
  | ok found => rfl
  | error failure =>
    simp only [Result.error_tryCatch]
    split
    · rfl
    · simp only [Traced.outcome_bind, Traced.outcome_note, Result.ok_bind, Traced.outcome_lift]

theorem outcome_commit (verbosity : Nat) (state : State) (target : Target)
    (value : Option Value) :
    (commit verbosity state target value).outcome =
      (state.root.assign (target.assignment value)).map fun written =>
        { state with root := written.2 } := by
  simp only [commit, Traced.outcome_bind, Traced.outcome_lift]
  change (state.root.assign (target.assignment value) >>= _) = _
  cases state.root.assign (target.assignment value) <;> rfl

/-! ## What a step does, by the role of its token -/

theorem outcome_step_assign (isAssign : token.role = .assign) :
    (step verbosity state passed token rest).outcome = (do
      let target ← targetBefore token passed
      if rest.head?.any (·.role == .expression) then return { state with pending := some target }
      else (valueAfter verbosity state.root target token rest).outcome >>= fun value =>
        (commit verbosity state target value).outcome) := by
  simp only [step, isAssign, Traced.outcome_bind, Traced.outcome_lift]
  congr 1
  funext target
  split
  · rfl
  · rw [Traced.outcome_bind]

theorem outcome_step_unassigned (isExpression : token.role = .expression)
    (nothing : state.pending = none) : (step verbosity state passed token rest).outcome =
      fail .unassignedExpression token.line token.number := by
  simp [step, isExpression, nothing]

theorem outcome_step_missing (isExpression : token.role = .expression)
    (waiting : state.pending = some target) (nothing : token.expression = none) :
    (step verbosity state passed token rest).outcome = .error (.fault .missingExpression) := by
  simp [step, isExpression, waiting, nothing]

theorem outcome_step_evaluated {run : List AnnotatedToken} (isExpression : token.role = .expression)
    (waiting : state.pending = some target) (carries : token.expression = some run) :
    (step verbosity state passed token rest).outcome =
      (Expression.evaluate verbosity state.root run).outcome >>= fun value =>
        (commit verbosity { state with pending := none, result := value } target value).outcome := by
  simp only [step, isExpression, waiting, carries, Traced.outcome_bind]

theorem outcome_step_inspect (isInspect : token.role = .inspect) :
    (step verbosity state passed token rest).outcome = (do
      return { state with inspections := state.inspections ++ [← inspect state token passed] }) := by
  simp only [step, isInspect, Traced.outcome_bind, Traced.outcome_lift]
  rfl

/-- A step over such a token does nothing. -/
def isQuiet (token : AnnotatedToken) : Bool :=
  !(token.role == .assign || token.role == .expression || token.role == .inspect)

theorem step_quiet (quiet : isQuiet token = true) (state : State) :
    step verbosity state passed token rest = pure state := by
  unfold step
  cases role : token.role <;> simp_all [isQuiet]

theorem outcome_step_quiet (quiet : isQuiet token = true) :
    (step verbosity state passed token rest).outcome = .ok state := by
  rw [step_quiet quiet]
  rfl

/-! ## Assignments of a step -/

/-- The step on a token assigns a value to a target: the right-hand side has produced it, as a
literal, by a reference or by the evaluation of an expression. -/
inductive Assigns (verbosity : Nat) (state : State) (passed : List AnnotatedToken)
    (token : AnnotatedToken) (rest : List AnnotatedToken) : Target → Option Value → Prop where
  | direct {target : Target} {value : Option Value} (isAssign : token.role = .assign)
      (aims : targetBefore token passed = .ok target)
      (plain : rest.head?.any (·.role == .expression) = false)
      (produced : (valueAfter verbosity state.root target token rest).outcome = .ok value) :
      Assigns verbosity state passed token rest target value
  | evaluated {target : Target} {value : Option Value} {run : List AnnotatedToken}
      (isExpression : token.role = .expression) (waiting : state.pending = some target)
      (carries : token.expression = some run)
      (produced : (Expression.evaluate verbosity state.root run).outcome = .ok value) :
      Assigns verbosity state passed token rest target value

/-- An assignment that is refused ends the run. -/
theorem step_refused {failure : Failure}
    (assigns : Assigns verbosity state passed token rest target value)
    (refused : state.root.assign (target.assignment value) = .error failure) :
    (step verbosity state passed token rest).outcome = .error failure := by
  cases assigns with
  | direct isAssign aims plain produced =>
    rw [outcome_step_assign isAssign, aims, Result.ok_bind, plain, if_neg (by simp), produced,
      Result.ok_bind, outcome_commit, refused]
    rfl
  | evaluated isExpression waiting carries produced =>
    rw [outcome_step_evaluated isExpression waiting carries, produced, Result.ok_bind,
      outcome_commit, refused]
    rfl

/-! ## The effect of a step -/

/-- What a step that succeeds has done. -/
inductive Effect (verbosity : Nat) (state : State) (passed : List AnnotatedToken)
    (token : AnnotatedToken) (rest : List AnnotatedToken) : State → Prop where
  | nothing (quiet : token.role ≠ .expression) : Effect verbosity state passed token rest state
  | waits {target : Target} (isAssign : token.role = .assign)
      (aims : targetBefore token passed = .ok target)
      (follows : rest.head?.any (·.role == .expression) = true) :
      Effect verbosity state passed token rest { state with pending := some target }
  | assigns {target : Target} {value : Option Value} {entry : Variable} {root : Scope}
      {pending : Option Target} {result : Option Value}
      (assigns : Assigns verbosity state passed token rest target value)
      (assigned : state.root.assign (target.assignment value) = .ok (entry, root))
      (waiting : pending = if token.role = .expression then none else state.pending) :
      Effect verbosity state passed token rest
        { root := root, inspections := state.inspections, pending := pending, result := result }
  | inspects {inspection : Inspection} (isInspect : token.role = .inspect)
      (inspected : inspect state token passed = .ok inspection) :
      Effect verbosity state passed token rest
        { state with inspections := state.inspections ++ [inspection] }

theorem commit_ok (committed : (commit verbosity state target value).outcome = .ok next) :
    ∃ entry root, state.root.assign (target.assignment value) = .ok (entry, root) ∧
      next = { state with root := root } := by
  rw [outcome_commit] at committed
  cases assigned : state.root.assign (target.assignment value) with
  | error failure => simp [assigned, Except.map] at committed
  | ok written =>
    obtain ⟨entry, root⟩ := written
    rw [assigned] at committed
    exact ⟨entry, root, rfl, (Except.ok.inj committed).symm⟩

theorem effect_of_step (stepped : (step verbosity state passed token rest).outcome = .ok next) :
    Effect verbosity state passed token rest next := by
  -- one case for each role that does something, and one for all others
  cases role : token.role with
  | assign =>
    rw [outcome_step_assign role] at stepped
    obtain ⟨target, aims, stepped⟩ := Result.bind_eq_ok_iff.mp stepped
    split at stepped
    · next follows =>
      obtain rfl : { state with pending := some target } = next := Except.ok.inj stepped
      exact .waits role aims follows
    · next plain =>
      obtain ⟨value, produced, stepped⟩ := Result.bind_eq_ok_iff.mp stepped
      obtain ⟨entry, root, assigned, rfl⟩ := commit_ok stepped
      exact .assigns (.direct role aims (Bool.eq_false_iff.mpr plain) produced) assigned
        (by simp [role])
  | expression =>
    cases waiting : state.pending with
    | none =>
      rw [outcome_step_unassigned role waiting] at stepped
      cases stepped
    | some target =>
      cases carries : token.expression with
      | none =>
        rw [outcome_step_missing role waiting carries] at stepped
        cases stepped
      | some run =>
        rw [outcome_step_evaluated role waiting carries] at stepped
        obtain ⟨value, produced, stepped⟩ := Result.bind_eq_ok_iff.mp stepped
        obtain ⟨entry, root, assigned, rfl⟩ := commit_ok stepped
        exact .assigns (.evaluated role waiting carries produced) assigned (by simp [role])
  | inspect =>
    rw [outcome_step_inspect role] at stepped
    obtain ⟨inspection, inspected, stepped⟩ := Result.bind_eq_ok_iff.mp stepped
    obtain rfl : { state with inspections := state.inspections ++ [inspection] } = next :=
      Except.ok.inj stepped
    exact .inspects role inspected
  | _ =>
    rw [outcome_step_quiet (by simp [isQuiet, role])] at stepped
    exact Except.ok.inj stepped ▸ .nothing (by simp [role])

/-! ## The points of a run -/

/-- A point of a run: the passed tokens, nearest first, the state there, and the tokens to come. -/
structure Point where
  passed : List AnnotatedToken := []
  state : State := {}
  rest : List AnnotatedToken

/-- How the run ends from a point on. -/
def Point.ending (verbosity : Nat) (point : Point) : Result State :=
  (walk verbosity point.state point.passed point.rest).outcome

/-- The step at a point succeeds and leads to the next point. -/
inductive Moves (verbosity : Nat) : Point → Point → Prop where
  | step {state next : State} {token : AnnotatedToken} {passed rest : List AnnotatedToken}
      (stepped : (step verbosity state passed token rest).outcome = .ok next) :
      Moves verbosity ⟨passed, state, token :: rest⟩ ⟨token :: passed, next, rest⟩

/-- Steps lead from the first point to the second. -/
abbrev Leads (verbosity : Nat) : Point → Point → Prop :=
  Relation.ReflTransGen (Moves verbosity)

variable {point later : Point}

theorem ending_of_moves (moves : Moves verbosity point later) :
    point.ending verbosity = later.ending verbosity := by
  cases moves with
  | step stepped => simp [Point.ending, walk, stepped]

theorem ending_of_leads (leads : Leads verbosity point later) :
    point.ending verbosity = later.ending verbosity := by
  induction leads with
  | refl => rfl
  | tail _ moves inductionHypothesis => exact inductionHypothesis.trans (ending_of_moves moves)

/-- A run that ends well leads to each of its tokens. -/
theorem leads_to_token {passed front rest : List AnnotatedToken} {state final : State}
    (ends : Point.ending verbosity ⟨passed, state, front ++ rest⟩ = .ok final) :
    ∃ next,
      Leads verbosity ⟨passed, state, front ++ rest⟩ ⟨front.reverse ++ passed, next, rest⟩ := by
  induction front generalizing passed state with
  | nil => exact ⟨state, .refl⟩
  | cons token front inductionHypothesis =>
    simp only [Point.ending, List.cons_append, walk, Traced.outcome_bind] at ends
    obtain ⟨middle, stepped, goesOn⟩ := Result.bind_eq_ok_iff.mp ends
    obtain ⟨next, leads⟩ := inductionHypothesis goesOn
    refine ⟨next, .head (.step stepped) ?_⟩
    simpa using leads

/-- A run that ends well leads to the end of its tokens. -/
theorem leads_to_end {final : State} (ends : point.ending verbosity = .ok final) :
    ∃ all, Leads verbosity point ⟨all, final, []⟩ := by
  obtain ⟨passed, state, tokens⟩ := point
  rw [← List.append_nil tokens] at ends ⊢
  obtain ⟨next, leads⟩ := leads_to_token ends
  obtain rfl : next = final := Except.ok.inj ((ending_of_leads leads).symm.trans ends)
  exact ⟨_, leads⟩

/-- What every step keeps holds wherever the run leads. -/
theorem invariant_of_leads {invariant : Point → Prop}
    (kept : ∀ point next, Moves verbosity point next → invariant point → invariant next)
    (holds : invariant point) (leads : Leads verbosity point later) : invariant later := by
  induction leads with
  | refl => exact holds
  | tail _ moves inductionHypothesis => exact kept _ _ moves inductionHypothesis

end Interpretation

open Interpretation in
theorem outcome_interpret (verbosity : Nat) (tokens : List AnnotatedToken) :
    (interpret verbosity tokens).outcome =
      (Point.ending verbosity { rest := tokens }).map fun final =>
        ⟨final.root, final.inspections⟩ := by
  simp only [interpret, Traced.outcome_bind, Traced.outcome_note, Result.ok_bind]
  cases ends : (walk verbosity {} [] tokens).outcome <;> simp [Point.ending, ends, Except.map]

end ParaLang
