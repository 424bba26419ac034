import ParaLang.Proofs.Annotations.Shape
import ParaLang.Proofs.Expression.Arrangement
import ParaLang.Proofs.Expression.Evaluation
import ParaLang.Proofs.Interpretation.Steps

/-! # What annotated programs are never blamed for

Some diagnostics only arise on tokens out of shape: a value or a name that is missing where one has
to be, and an expression that nothing waits for.  The parts of a step that look at values alone give
no such diagnostic, and the shape of an annotated program keeps the others from arising. -/

namespace ParaLang

/-- The causes that arise on tokens out of shape. -/
def Cause.ofShape : Cause → Bool
  | .noValue | .emptyPath | .noName | .unassignedExpression => true
  | _ => false

/-- Two rules are only violated by tokens out of shape. -/
theorem Cause.ofShape_of_name {cause : Cause}
    (named : cause.name = "NoValueFoundAfterAssignment" ∨ cause.name = "InvalidLookupPath") :
    cause.ofShape = true := by
  cases cause with
  | noValue | emptyPath | noName | unassignedExpression => rfl
  | _ => rcases named with named | named <;> exact absurd named (of_decide_eq_false rfl)

/-- A failure that does not blame the shape of the tokens. -/
def Blameless : Failure → Prop
  | .diagnostic diagnostic => diagnostic.cause.ofShape = false
  | .fault _ => True

/-- A partial computation that never blames the shape of the tokens. -/
abbrev Clears {α : Type} (result : Result α) : Prop :=
  Settles Blameless (fun _ => True) result

section Clears

variable {α β : Type}

theorem clears_ok (value : α) : Clears (.ok value) :=
  trivial

theorem clears_fault (fault : Fault) : Clears (.error (.fault fault) : Result α) :=
  trivial

theorem clears_fail {cause : Cause} (other : cause.ofShape = false) (line token : Option Int)
    (path : Option (List String)) : Clears (fail cause line token path : Result α) :=
  other

theorem Clears.bind {first : Result α} {next : α → Result β} (clears : Clears first)
    (later : ∀ value, Clears (next value)) : Clears (first >>= next) :=
  Settles.bind clears fun value _ => later value

end Clears

/-! ## Arithmetic -/

namespace Arithmetic

variable (place : Place)

theorem clears_checked (result : Int) : Clears (checked result place) := by
  unfold checked
  split
  · exact clears_ok _
  · exact clears_fail rfl _ _ _

theorem clears_widen (operand : Int) : Clears (widen operand) := by
  unfold widen
  split
  · exact clears_ok _
  · exact clears_fault _

theorem clears_floatPower (base exponent : Float) : Clears (floatPower base exponent place) := by
  unfold floatPower
  split
  · exact clears_fail rfl _ _ _
  · simp only
    split
    · split
      · exact clears_fail rfl _ _ _
      · split
        · exact clears_fail rfl _ _ _
        · exact clears_ok _
    · exact clears_ok _

theorem clears_onIntegers (operator : BinaryOperator) (left right : Int) :
    Clears (onIntegers operator left right place) := by
  cases operator with
  | add | subtract | multiply => exact clears_checked place _
  | divide | remainder =>
    simp only [onIntegers]
    split
    · exact clears_fail rfl _ _ _
    · exact clears_checked place _
  | power =>
    simp only [onIntegers]
    split
    · exact (clears_widen _).bind fun _ => (clears_widen _).bind fun _ =>
        clears_floatPower place _ _
    · split
      · exact clears_fail rfl _ _ _
      · exact clears_checked place _

theorem clears_onFloats (operator : BinaryOperator) (left right : Float) :
    Clears (onFloats operator left right place) := by
  cases operator with
  | add | subtract | multiply => exact clears_ok _
  | divide | remainder =>
    simp only [onFloats]
    split
    · exact clears_fail rfl _ _ _
    · exact clears_ok _
  | power => exact clears_floatPower place left right

theorem clears_operatorOf (symbol : String) : Clears (operatorOf symbol place) := by
  unfold operatorOf
  split
  · exact clears_ok _
  · exact clears_fail rfl _ _ _

theorem clears_apply (symbol : String) (left right : Value) :
    Clears (apply symbol left right place) := by
  unfold apply
  split
  · exact (clears_operatorOf place symbol).bind fun _ => clears_onIntegers place _ _ _
  · exact (clears_widen _).bind fun _ => (clears_operatorOf place symbol).bind fun _ =>
      clears_onFloats place _ _ _
  · exact (clears_widen _).bind fun _ => (clears_operatorOf place symbol).bind fun _ =>
      clears_onFloats place _ _ _
  · exact (clears_operatorOf place symbol).bind fun _ => clears_onFloats place _ _ _
  · exact clears_fail rfl _ _ _

theorem clears_negate (operand : Value) : Clears (negate operand place) := by
  unfold negate
  split
  · exact clears_checked place _
  · exact clears_ok _
  · exact clears_fail rfl _ _ _

end Arithmetic

theorem clears_require (value : Option Value) : Clears (Value.require value) := by
  cases value with
  | none => exact clears_fault _
  | some value => exact clears_ok value

namespace Expression

/-! ## Expressions -/

theorem clears_rank (symbol : String) : Clears (rank symbol) := by
  unfold rank
  split
  · exact clears_ok _
  · exact clears_fault _

/-- A disorder among the tokens of an expression does not blame their shape. -/
theorem arrangeable_clears : Arrangeable Blameless (fun _ => True) where
  refused _ cause _ disorder := by
    cases cause <;> first | rfl | cases disorder
  ranked token _ _ := clears_rank token.literal
  negated _ _ := trivial

theorem clears_arrange (previous : Option Role) (stack tokens : List AnnotatedToken) :
    Clears (arrange previous stack tokens) := by
  have settles := @Arrangeable.settles_arrange _ _ tokens stack arrangeable_clears
    (fun _ _ => trivial) previous (fun _ _ => trivial)
  exact settles.mono fun _ _ => trivial

theorem clears_push (root : Scope) (stack : Operands) (token : AnnotatedToken) :
    Clears (push root stack token) := by
  unfold push
  split
  · exact clears_ok _
  · split
    · exact clears_ok _
    · exact clears_fail rfl _ _ _
  · split
    · split
      · exact (clears_require _).bind fun _ =>
          (Arithmetic.clears_negate _ _).bind fun _ => clears_ok _
      · exact clears_fail rfl _ _ _
    · split
      · exact (clears_require _).bind fun _ => (clears_require _).bind fun _ =>
          (Arithmetic.clears_apply _ _ _ _).bind fun _ => clears_ok _
      · exact clears_fail rfl _ _ _

theorem clears_pushAll (root : Scope) (stack : Operands) (tokens : List AnnotatedToken) :
    Clears (pushAll root stack tokens) := by
  induction tokens generalizing stack with
  | nil => exact clears_ok _
  | cons token rest inductionHypothesis =>
    exact (clears_push root stack token).bind fun _ => inductionHypothesis _

theorem clears_evaluatePostfix (root : Scope) (postfixed : List AnnotatedToken) :
    Clears (evaluatePostfix root postfixed) := by
  refine (clears_pushAll root [] postfixed).bind fun stack => ?_
  split
  · exact clears_ok _
  · split
    · exact clears_fail rfl _ _ _
    · exact clears_fail rfl _ _ _
  · split
    · exact clears_fail rfl _ _ _
    · exact clears_fault _

theorem clears_evaluate (verbosity : Nat) (root : Scope) (run : List AnnotatedToken) :
    Clears (evaluate verbosity root run).outcome := by
  rw [outcome_evaluate]
  exact (clears_arrange none [] run).bind fun _ => clears_evaluatePostfix root _

end Expression

/-! ## The scope tree -/

namespace Scope

theorem clears_coerceFor (assignment : Assignment) : Clears (coerceFor assignment) := by
  unfold coerceFor
  split
  · split
    · exact clears_fail rfl _ _ _
    · exact clears_fault _
  · split
    · exact clears_ok _
    · exact clears_fail rfl _ _ _
    · exact clears_fault _

theorem clears_assign (root : Scope) (assignment : Assignment) :
    Clears (root.assign assignment) := by
  rcases List.eq_nil_or_concat' assignment.path with empty | ⟨groups, name, ends⟩
  · rw [assign_nil empty]
    exact clears_fail rfl _ _ _
  · rw [assign_eq ends, entryFor]
    refine Clears.bind ?_ fun _ => clears_ok _
    split
    · exact clears_fail rfl _ _ _
    · exact (clears_coerceFor assignment).bind fun _ => clears_ok _

/-- Only a path without any names is out of shape. -/
theorem clears_resolve (root : Scope) {path : List String} (nonempty : path ≠ [])
    (line token : Option Int) : Clears (root.resolve path line token) := by
  obtain ⟨groups, name, rfl⟩ := (List.eq_nil_or_concat' path).resolve_left nonempty
  rw [resolve_eq, List.getLast?_concat]
  simp only
  split
  · exact clears_fail rfl _ _ _
  · split
    · exact clears_ok _
    · exact clears_fail rfl _ _ _

end Scope

namespace Interpretation

open Annotations (Shaped FitsBetween IsAssigned IsReference)

variable {state : State} {token : AnnotatedToken} {passed rest : List AnnotatedToken}

/-! ## Steps -/

theorem clears_targetBefore (assign : AnnotatedToken) (passed : List AnnotatedToken) :
    Clears (targetBefore assign passed) := by
  have ending (type : Option String) (passed : List AnnotatedToken) :
      Clears (targetEndingAt type assign passed) := by
    unfold targetEndingAt
    split
    · exact clears_fail rfl _ _ _
    · split
      · exact clears_ok _
      · exact clears_fail rfl _ _ _
  unfold targetBefore
  split
  · exact ending _ _
  · split
    · exact ending _ _
    · exact ending _ _

theorem clears_resolveReference (verbosity : Nat) (root : Scope) (target : Target)
    {path : List String} (nonempty : path ≠ []) (place : AnnotatedToken) :
    Clears (resolveReference verbosity root target path place).outcome := by
  rw [outcome_resolveReference]
  cases resolved : root.resolve path place.line place.number with
  | ok found => exact clears_ok _
  | error failure =>
    rw [Result.error_tryCatch]
    split
    · exact (root.clears_resolve nonempty _ _).of_error resolved
    · next goesOn =>
      have nonemptyShorter : path.drop target.path.dropLast.length ≠ [] := by
        simp only [not_or, not_le] at goesOn
        simpa using goesOn.2.2.1
      exact root.clears_resolve nonemptyShorter _ _

/-- What is assigned starts with a literal, an expression or a segment of a path. -/
theorem exists_first_of_assigned {assigned : List AnnotatedToken} (isAssigned : IsAssigned assigned) :
    ∃ first others, assigned = first :: others ∧
      (first.role = .value ∨ first.role = .expression ∨ first.isSegment = true) := by
  rcases isAssigned with ⟨first, rfl, isValue | isExpression⟩ | reference
  · exact ⟨first, [], rfl, .inl isValue⟩
  · exact ⟨first, [], rfl, .inr (.inl isExpression)⟩
  · cases reference with
    | lookup isLookup =>
      exact ⟨_, [], rfl, .inr (.inr (by simp [AnnotatedToken.isSegment, isLookup, Role.isSegment]))⟩
    | group isGroup =>
      exact ⟨_, _, rfl, .inr (.inr (by simp [AnnotatedToken.isSegment, isGroup, Role.isSegment]))⟩

theorem clears_valueAfter (verbosity : Nat) (root : Scope) (target : Target)
    {previous : Option Role} (isAssign : token.role = .assign)
    (fits : FitsBetween previous token rest)
    (plain : rest.head?.any (·.role == .expression) = false) :
    Clears (valueAfter verbosity root target token rest).outcome := by
  obtain ⟨assigned, follow, later, rfl, isAssigned, -⟩ := fits.assign isAssign
  obtain ⟨first, others, rfl, starts⟩ := exists_first_of_assigned isAssigned
  simp only [List.cons_append, valueAfter]
  split
  · exact clears_ok _
  · next noValue =>
    rcases starts with isValue | isExpression | segment
    · exact absurd isValue noValue
    · simp [isExpression] at plain
    · rw [if_pos segment, Traced.outcome_bind]
      refine (clears_resolveReference verbosity root target ?_ first).bind fun _ => clears_ok _
      simp [pathAt, segment]

theorem clears_commit (verbosity : Nat) (state : State) (target : Target) (value : Option Value) :
    Clears (commit verbosity state target value).outcome := by
  simp only [commit, Traced.outcome_bind, Traced.outcome_lift, Traced.outcome_note, Result.ok_bind]
  exact (state.root.clears_assign _).bind fun _ => clears_ok _

theorem clears_inspect (state : State) (place : AnnotatedToken) (passed : List AnnotatedToken) :
    Clears (inspect state place passed) := by
  unfold inspect
  split
  · exact clears_ok _
  · split
    · exact (clears_require _).bind fun _ => clears_ok _
    · split
      · exact clears_ok _
      · exact clears_ok _

/-- If an expression comes next, a target waits for it. -/
def Waits (state : State) (rest : List AnnotatedToken) : Prop :=
  ∀ next ∈ rest.head?, next.role = .expression → state.pending.isSome = true

/-- In a program that has its shape, a step blames nothing on it and leaves a target for the
expression that comes next. -/
theorem waits_step (verbosity : Nat) {previous : Option Role}
    (shaped : Shaped previous (token :: rest) []) (waits : Waits state (token :: rest)) :
    Settles Blameless (Waits · rest) (step verbosity state passed token rest).outcome := by
  obtain ⟨fits, later⟩ := shaped
  rw [List.append_nil] at fits
  -- an expression can only come next behind an `=`
  have behindAssign : token.role ≠ .assign → ∀ state, Waits state rest := by
    intro noAssign state next isNext isExpression
    cases rest with
    | nil => cases isNext
    | cons first rest =>
      obtain rfl : first = next := Option.some.inj isNext
      exact absurd (Option.some.inj (later.1.expression isExpression).1) noAssign
  have elsewhere {result : Result State} (noAssign : token.role ≠ .assign)
      (clears : Clears result) : Settles Blameless (Waits · rest) result :=
    clears.mono fun state _ => behindAssign noAssign state
  cases role : token.role with
  | assign =>
    rw [outcome_step_assign role]
    refine Settles.bind (clears_targetBefore token passed) fun target _ => ?_
    split
    · exact fun _ _ _ => rfl
    · next noExpression =>
      have plain := Bool.eq_false_iff.mpr noExpression
      refine ((clears_valueAfter verbosity state.root target role fits plain).bind fun value =>
        clears_commit verbosity state target value).mono fun _ _ next isNext isExpression => ?_
      rw [isNext] at plain
      simp [isExpression] at plain
  | expression =>
    refine elsewhere (by simp [role]) ?_
    obtain ⟨target, isPending⟩ := Option.isSome_iff_exists.mp (waits token rfl role)
    cases carries : token.expression with
    | none =>
      rw [outcome_step_missing role isPending carries]
      exact clears_fault _
    | some run =>
      rw [outcome_step_evaluated role isPending carries]
      exact (Expression.clears_evaluate verbosity state.root _).bind fun _ =>
        clears_commit verbosity _ target _
  | inspect =>
    refine elsewhere (by simp [role]) ?_
    rw [outcome_step_inspect role]
    exact (clears_inspect state token passed).bind fun _ => clears_ok _
  | _ =>
    refine elsewhere (by simp [role]) ?_
    rw [outcome_step_quiet (by simp [isQuiet, role])]
    exact clears_ok _

/-- So does a whole run. -/
theorem clears_walk (verbosity : Nat) {previous : Option Role} {tokens : List AnnotatedToken}
    (shaped : Shaped previous tokens []) (waits : Waits state tokens) :
    Clears (walk verbosity state passed tokens).outcome := by
  induction tokens generalizing state passed previous with
  | nil => exact clears_ok state
  | cons token rest inductionHypothesis =>
    simp only [walk, Traced.outcome_bind]
    exact (waits_step verbosity shaped waits).bind fun next waitsNext =>
      inductionHypothesis shaped.2 waitsNext

end Interpretation

theorem clears_interpret (verbosity : Nat) {tokens : List AnnotatedToken}
    (shaped : Annotations.Shaped none tokens []) : Clears (interpret verbosity tokens).outcome := by
  have waits : Interpretation.Waits {} tokens := by
    intro next isNext isExpression
    cases tokens with
    | nil => cases isNext
    | cons first rest =>
      obtain rfl : first = next := Option.some.inj isNext
      cases (shaped.1.expression isExpression).1
  simp only [interpret, Traced.outcome_bind, Traced.outcome_note, Result.ok_bind]
  exact (Interpretation.clears_walk verbosity shaped waits).bind fun _ => clears_ok _

/-! ## Annotated programs -/

/-- In an accepted program every token fits between its neighbours, and the `=` of a statement has
its two sides.  So the interpretation of the program never misses a value behind an `=`, a path or
the target of an expression. -/
theorem annotate_establishes {tokens : List Token} {written : List AnnotatedToken}
    (annotated : annotate tokens = .ok written) :
    (∀ (before : List AnnotatedToken) (token : AnnotatedToken) (after : List AnnotatedToken),
      written = before ++ token :: after →
        Annotations.FitsBetween (before.getLast?.map (·.role)) token after) ∧
    (∀ statement ∈ statements written,
      ∀ (before : List AnnotatedToken) (assign : AnnotatedToken) (after : List AnnotatedToken),
        statement = before ++ assign :: after → assign.role = .assign →
          (∀ token ∈ before, token.role ≠ .assign ∧ token.role ≠ .lookup) ∧
            ∀ token ∈ after, token.role ≠ .assign ∧ token.role ≠ .identifier) ∧
    ∀ verbosity diagnostic, (interpret verbosity written).outcome = .error (.diagnostic diagnostic) →
      diagnostic.cause.name ≠ "NoValueFoundAfterAssignment" ∧
        diagnostic.cause.name ≠ "InvalidLookupPath" ∧ diagnostic.cause ≠ .unassignedExpression := by
  have reads := (Annotations.annotate_eq_ok_iff.mp annotated).2
  have shaped := Annotations.shaped_of_reads reads none
  refine ⟨?_, ?_, ?_⟩
  · rintro before token after rfl
    exact Annotations.fits_of_shaped shaped
  · rintro statement member before assign after rfl isAssign
    exact (Annotations.sided_of_reads reads _ member).roles isAssign
  · intro verbosity diagnostic fails
    have blameless : diagnostic.cause.ofShape = false :=
      (clears_interpret verbosity shaped).of_error fails
    refine ⟨fun named => ?_, fun named => ?_, fun isCause => ?_⟩
    · simp [Cause.ofShape_of_name (.inl named)] at blameless
    · simp [Cause.ofShape_of_name (.inr named)] at blameless
    · simp [isCause, Cause.ofShape] at blameless

/-- The tokens of an assignment of a sum, with a variable that nothing defines. -/
def sumAssignment : List Token :=
  [⟨.identifier, "x", 1, 1⟩, ⟨.equals, "=", 1, 2⟩, ⟨.identifier, "y", 1, 3⟩, ⟨.plus, "+", 1, 4⟩,
    ⟨.int, "1", 1, 5⟩, ⟨.endOfInput, "", 1, 6⟩]

/-- What they become. -/
def sumWritten : List AnnotatedToken :=
  [{ role := .identifier, literal := "x", kind := .identifier, line := 1, number := 1 },
    { role := .assign, literal := "=", kind := .equals, line := 1, number := 2 },
    { role := .expression, literal := "y + 1", kind := .identifier, line := 1, number := 3,
      expression := some
        [{ role := .lookup, literal := "y", kind := .identifier, line := 1, number := 3 },
          { role := .operator, literal := "+", kind := .plus, line := 1, number := 4 },
          { role := .value, literal := "1", kind := .int, line := 1, number := 5,
            type := some "int", value := some (.int 1) }] },
    { role := .endOfInput, literal := "", kind := .endOfInput, line := 1, number := 6 }]

/-- The run of this program fails, and it does not blame the shape of the program. -/
theorem annotate_establishes_sum : annotate sumAssignment = .ok sumWritten ∧
    ∃ diagnostic, (interpret 0 sumWritten).outcome = .error (.diagnostic diagnostic) ∧
      diagnostic.cause.name ≠ "NoValueFoundAfterAssignment" ∧
        diagnostic.cause.name ≠ "InvalidLookupPath" ∧
          diagnostic.cause ≠ .unassignedExpression := by
  have annotated : annotate sumAssignment = .ok sumWritten := rfl
  have fails : ∃ diagnostic, (interpret 0 sumWritten).outcome = .error (.diagnostic diagnostic) :=
    ⟨_, rfl⟩
  obtain ⟨diagnostic, fails⟩ := fails
  exact ⟨annotated, diagnostic, fails, (annotate_establishes annotated).2.2 0 diagnostic fails⟩

end ParaLang
