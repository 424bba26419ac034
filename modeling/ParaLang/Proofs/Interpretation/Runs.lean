import ParaLang.Proofs.Interpretation.Essence
import ParaLang.Proofs.Interpretation.Steps
import ParaLang.Statement

/-! # Runs of tokens

Between question marks and the ends of statements tokens stand in runs, and a step does not look
past the ends of its run.  So a program does what its statements do one after another. -/

namespace ParaLang

/-- Tokens that stand between runs. -/
def Role.separates (role : Role) : Bool :=
  role.isBoundary || role == .inspect

/-- Nothing in front of a list of tokens belongs to the run at hand. -/
def Separated (tokens : List AnnotatedToken) : Prop :=
  ∀ token ∈ tokens.head?, token.role.separates = true

theorem separated_nil : Separated [] := by
  simp [Separated]

theorem separated_cons {token : AnnotatedToken} {rest : List AnnotatedToken}
    (separates : token.role.separates = true) : Separated (token :: rest) := by
  simpa [Separated] using separates

theorem ne_of_separates {role : Role} {token : AnnotatedToken}
    (separates : token.role.separates = true) (within : role.separates = false) :
    token.role ≠ role := by
  rintro rfl
  rw [separates] at within
  cases within

theorem not_isSegment_of_separates {token : AnnotatedToken}
    (separates : token.role.separates = true) : token.isSegment = false := by
  cases role : token.role <;>
    simp_all [Role.separates, Role.isBoundary, AnnotatedToken.isSegment, Role.isSegment]

/-! ## Paths -/

section Paths

variable {before outer : List AnnotatedToken}

theorem pathTail_separated (separated : Separated outer) : pathTail outer = [] := by
  match outer, separated with
  | [], _ => rfl
  | [_], _ => rfl
  | arrow :: segment :: rest, separated =>
    have separates := separated arrow rfl
    rw [pathTail, if_neg]
    rintro ⟨isArrow, -⟩
    exact ne_of_separates separates rfl isArrow

theorem pathTail_append (separated : Separated outer) :
    pathTail (before ++ outer) = pathTail before := by
  induction before using pathTail.induct with
  | case1 arrow segment rest links inductionHypothesis =>
    rw [List.cons_append, List.cons_append, pathTail, pathTail, if_pos links, if_pos links,
      inductionHypothesis]
  | case2 arrow segment rest apart =>
    rw [List.cons_append, List.cons_append, pathTail, pathTail, if_neg apart, if_neg apart]
  | case3 before short =>
    rcases before with _ | ⟨last, _ | ⟨segment, rest⟩⟩
    · exact pathTail_separated separated
    · cases outer with
      | nil => rfl
      | cons token outer =>
        have noSegment := not_isSegment_of_separates (separated token rfl)
        simp [pathTail, noSegment]
    · exact absurd rfl (short last segment rest)

theorem pathAt_append (separated : Separated outer) :
    pathAt (before ++ outer) = pathAt before := by
  cases before with
  | nil =>
    cases outer with
    | nil => rfl
    | cons token outer =>
      simp [pathAt, not_isSegment_of_separates (separated token rfl)]
  | cons token before => simp only [List.cons_append, pathAt, pathTail_append separated]

theorem pathBefore_append (separated : Separated outer) :
    pathBefore (before ++ outer) = pathBefore before := by
  rw [pathBefore, pathBefore, pathAt_append separated]

end Paths

namespace Interpretation

/-! ## Steps within a run -/

section Steps

variable {before outer run rest : List AnnotatedToken}

theorem targetEndingAt_append (separated : Separated outer) (type : Option String)
    (assign : AnnotatedToken) :
    targetEndingAt type assign (before ++ outer) = targetEndingAt type assign before := by
  cases before with
  | nil =>
    cases outer with
    | nil => rfl
    | cons token outer =>
      have noName := @ne_of_separates .identifier _ (separated token rfl) rfl
      simp [targetEndingAt, noName]
  | cons name before =>
    have path := @pathBefore_append (name :: before) outer separated
    rw [List.cons_append] at path
    simp only [List.cons_append, targetEndingAt, path]

theorem targetBefore_append (separated : Separated outer) (assign : AnnotatedToken) :
    targetBefore assign (before ++ outer) = targetBefore assign before := by
  cases before with
  | nil =>
    cases outer with
    | nil => rfl
    | cons token outer =>
      have noType := @ne_of_separates .type _ (separated token rfl) rfl
      simp only [List.nil_append, targetBefore, if_neg noType]
      exact @targetEndingAt_append [] (token :: outer) separated none assign
  | cons last before =>
    have untyped := @targetEndingAt_append (last :: before) outer separated none assign
    rw [List.cons_append] at untyped
    simp only [List.cons_append, targetBefore, targetEndingAt_append separated, untyped]

theorem inspectPath_append (separated : Separated outer) (root : Scope) (place : AnnotatedToken) :
    inspectPath root place (before ++ outer) = inspectPath root place before := by
  simp only [inspectPath, pathBefore_append separated]

theorem inspect_append (separated : Separated outer) (state : State) (place : AnnotatedToken) :
    inspect state place (before ++ outer) = inspect state place before := by
  cases before with
  | nil =>
    cases outer with
    | nil => rfl
    | cons token outer =>
      have separates := separated token rfl
      have noValue := @ne_of_separates .value _ separates rfl
      have noExpression := @ne_of_separates .expression _ separates rfl
      have onPath := @inspectPath_append [] (token :: outer) separated state.root place
      simp only [List.nil_append] at onPath ⊢
      simp only [inspect, if_neg noValue, onPath]
      split
      · contradiction
      · rfl
  | cons last before =>
    have onPath := @inspectPath_append (last :: before) outer separated state.root place
    rw [List.cons_append] at onPath
    simp only [List.cons_append, inspect, onPath]

theorem valueAfter_append (nonempty : run ≠ []) (separated : Separated rest) (verbosity : Nat)
    (root : Scope) (target : Target) (assign : AnnotatedToken) :
    valueAfter verbosity root target assign (run ++ rest) =
      valueAfter verbosity root target assign run := by
  cases run with
  | nil => exact absurd rfl nonempty
  | cons token run =>
    have path := @pathAt_append (token :: run) rest separated
    rw [List.cons_append] at path
    simp only [List.cons_append, valueAfter, path]

theorem alike_valueAfter_append (separated : Separated rest) (verbosity : Nat) (root : Scope)
    (target : Target) (assign : AnnotatedToken) :
    Alike Eq (valueAfter verbosity root target assign (run ++ rest)).outcome
      (valueAfter verbosity root target assign run).outcome := by
  cases run with
  | nil =>
    cases rest with
    | nil => exact Alike.refl
    | cons token rest =>
      have separates := separated token rfl
      have noValue := @ne_of_separates .value _ separates rfl
      have noSegment := not_isSegment_of_separates separates
      simp only [List.nil_append, valueAfter, if_neg noValue, noSegment, Bool.false_eq_true,
        if_false]
      exact Alike.failing _ _ _ _ _ _
  | cons token run =>
    rw [valueAfter_append (by simp) separated]
    exact Alike.refl

theorem head_append (separated : Separated rest) :
    (run ++ rest).head?.any (·.role == .expression) = run.head?.any (·.role == .expression) := by
  cases run with
  | cons token run => rfl
  | nil =>
    cases rest with
    | nil => rfl
    | cons token rest =>
      have noExpression := @ne_of_separates .expression _ (separated token rfl) rfl
      simpa using noExpression

/-- A step does not look past the start of its run. -/
theorem step_outer (inFront : Separated outer) (verbosity : Nat) (state : State)
    (token : AnnotatedToken) (rest : List AnnotatedToken) :
    step verbosity state (before ++ outer) token rest = step verbosity state before token rest := by
  unfold step
  rw [targetBefore_append inFront, inspect_append inFront]

/-- A step does not look past the end of its run, if the run does not end with its `=`. -/
theorem step_behind (behind : Separated rest) (verbosity : Nat) (state : State)
    (passed : List AnnotatedToken) {token : AnnotatedToken}
    (complete : token.role = .assign → run ≠ []) :
    step verbosity state passed token (run ++ rest) = step verbosity state passed token run := by
  unfold step
  rw [head_append behind]
  -- no other token looks at what follows it
  cases role : token.role with
  | assign => simp only [valueAfter_append (complete role) behind]
  | _ => rfl

/-- What stands in front of a separator is out of sight. -/
theorem walk_outer (inFront : Separated outer) (verbosity : Nat) (state : State)
    (tokens : List AnnotatedToken) :
    walk verbosity state (before ++ outer) tokens = walk verbosity state before tokens := by
  induction tokens generalizing state before with
  | nil => rfl
  | cons token rest inductionHypothesis =>
    have later (next : State) := @inductionHypothesis (token :: before) next
    simp only [List.cons_append] at later
    simp only [walk, step_outer inFront, later]

theorem walk_separated (inFront : Separated outer) (verbosity : Nat) (state : State)
    (tokens : List AnnotatedToken) :
    walk verbosity state outer tokens = walk verbosity state [] tokens :=
  @walk_outer [] outer inFront verbosity state tokens

/-- Even an `=` without a value fails for the same cause, whatever follows its run. -/
theorem alike_step_append (behind : Separated rest) (verbosity : Nat) (state : State)
    (passed : List AnnotatedToken) (token : AnnotatedToken) :
    Alike Eq (step verbosity state passed token (run ++ rest)).outcome
      (step verbosity state passed token run).outcome := by
  by_cases isAssign : token.role = .assign
  · rw [outcome_step_assign isAssign, outcome_step_assign isAssign, head_append behind]
    refine Alike.refl.bind_eq fun target => ?_
    split
    · exact rfl
    · exact (alike_valueAfter_append behind _ _ _ _).bind_eq fun value => Alike.refl
  · rw [step_behind behind verbosity state passed fun found => absurd found isAssign]
    exact Alike.refl

/-- Walking over a run and what follows it is walking over the run by itself first. -/
theorem alike_walk_append (behind : Separated rest) (verbosity : Nat) (state : State)
    (passed : List AnnotatedToken) :
    Alike Eq (walk verbosity state passed (run ++ rest)).outcome
      ((walk verbosity state passed run).outcome >>= fun next =>
        (walk verbosity next (run.reverse ++ passed) rest).outcome) := by
  induction run generalizing state passed with
  | nil => exact Alike.refl
  | cons token run inductionHypothesis =>
    simp only [List.cons_append, walk, Traced.outcome_bind, bind_assoc]
    refine (alike_step_append behind verbosity state passed token).bind_eq fun next => ?_
    simpa using inductionHypothesis next (token :: passed)

end Steps

/-! ## Statements -/

section Statements

variable {verbosity : Nat} {state : State}

/-- Walks over some statements, each by itself. -/
def perform (verbosity : Nat) (state : State) : List (List AnnotatedToken) → Result State
  | [] => .ok state
  | statement :: rest => do
    perform verbosity (← (walk verbosity state [] statement).outcome) rest

/-- Walking over the rest of a statement and what follows it is performing them. -/
theorem alike_perform_collect {current outer : List AnnotatedToken} (inFront : Separated outer)
    (tokens : List AnnotatedToken) :
    Alike Eq (walk verbosity state outer (current.reverse ++ tokens)).outcome
      (perform verbosity state (Statement.collect current tokens)) := by
  induction tokens generalizing state current outer with
  | nil =>
    have walked := @alike_walk_append current.reverse [] separated_nil verbosity state []
    rw [walk_separated inFront, Statement.collect]
    cases current with
    | nil => exact walked
    | cons token current => exact walked
  | cons token rest inductionHypothesis =>
    cases boundary : token.role.isBoundary with
    | false =>
      have later := @inductionHypothesis state (token :: current) outer inFront
      rw [Statement.collect, if_neg (by simp [boundary])]
      simpa using later
    | true =>
      have separates : token.role.separates = true := by simp [Role.separates, boundary]
      have performed : perform verbosity state (Statement.collect current (token :: rest)) =
          ((walk verbosity state [] current.reverse).outcome >>= fun next =>
            perform verbosity next (Statement.collect [] rest)) := by
        rw [Statement.collect, if_pos boundary]
        cases current <;> rfl
      rw [performed, walk_separated inFront]
      refine (alike_walk_append (separated_cons separates) verbosity state []).trans
        (Alike.refl.bind_eq fun next => ?_) fun _ _ _ => Eq.trans
      rw [walk, step_boundary boundary]
      exact @inductionHypothesis next [] _ (separated_cons separates)

/-- What some statements do is a matter of what a run reads of them. -/
theorem alike_perform_essence (otherVerbosity : Nat) (statements : List (List AnnotatedToken)) :
    Alike (fun next other => other = next.essence) (perform verbosity state statements)
      (perform otherVerbosity state.essence
        (statements.map (List.map AnnotatedToken.essence))) := by
  induction statements generalizing state with
  | nil => exact rfl
  | cons statement statements inductionHypothesis =>
    refine (alike_walk verbosity otherVerbosity state [] statement).bind_image fun next => ?_
    exact inductionHypothesis

/-- A program does what its statements do one after another, up to places. -/
theorem alike_perform (tokens : List AnnotatedToken) :
    Alike (fun next other => other = next.essence) (walk verbosity {} [] tokens).outcome
      (perform 0 {} ((statements tokens).map (List.map AnnotatedToken.essence))) := by
  have performed := @alike_perform_collect verbosity {} [] [] separated_nil tokens
  have read := @alike_perform_essence verbosity {} 0 (statements tokens)
  exact performed.trans read fun _ _ _ equal essence => equal ▸ essence

end Statements

end Interpretation

/-- Programs whose statements read alike have the same outcome up to places. -/
theorem alike_interpret_statements {tokens others : List AnnotatedToken}
    (same : (statements tokens).map (List.map AnnotatedToken.essence) =
      (statements others).map (List.map AnnotatedToken.essence)) (verbosity otherVerbosity : Nat) :
    Alike Outcome.SameUpToPlaces (interpret verbosity tokens).outcome
      (interpret otherVerbosity others).outcome := by
  have left := @Interpretation.alike_perform verbosity tokens
  have right := @Interpretation.alike_perform otherVerbosity others
  rw [← same] at right
  exact alike_interpret_of_walk (left.trans (right.symm fun _ _ equal => equal)
    fun _ _ _ equal other => equal.symm.trans other)

end ParaLang
