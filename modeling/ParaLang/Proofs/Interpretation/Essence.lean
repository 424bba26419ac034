import ParaLang.Proofs.Expression.Places
import ParaLang.Proofs.Interpretation.Steps
import ParaLang.Proofs.Scope.Store

/-! # What a run reads

Of the annotated tokens a run only reads the parts they play, the names, types and values they
carry and the items of the expressions.  The essence of a token is that and what the flat form
shows besides.  A run over the essence of a program has the same outcome as a run over the program,
up to places. -/

namespace ParaLang

/-! ## Essences -/

namespace AnnotatedToken

/-- An item of an expression without its place. -/
def itemEssence (item : AnnotatedToken) : AnnotatedToken where
  role := item.role
  literal := item.literal
  kind := item.kind
  line := 0
  number := 0
  value := item.value

/-- A token whose text says nothing that its role, its value or its items do not say. -/
def isTextless (token : AnnotatedToken) : Bool :=
  token.role == .value || token.role == .expression || token.role == .arrow

/-- What a run and a rendering read of a token.  The ends of statements all look alike. -/
def essence (token : AnnotatedToken) : AnnotatedToken :=
  if token.role.isBoundary then
    { role := .newline, literal := "", kind := .newline, line := 0, number := 0 }
  else
    { role := token.role
      literal := if token.isTextless then "" else token.literal
      kind := .newline
      line := 0
      number := 0
      type := if token.role = .type then token.type else none
      value := token.value
      mutable := token.mutable
      temp := token.temp
      const := token.const
      expression := token.expression.map (List.map itemEssence) }

theorem sameItem_itemEssence (item : AnnotatedToken) : SameItem item item.itemEssence :=
  ⟨rfl, rfl, rfl⟩

theorem sameItems (items : List AnnotatedToken) :
    List.Forall₂ SameItem items (items.map itemEssence) := by
  induction items with
  | nil => exact .nil
  | cons item items inductionHypothesis =>
    exact .cons (sameItem_itemEssence item) inductionHypothesis

variable {token : AnnotatedToken}

theorem essence_of_boundary (boundary : token.role.isBoundary = true) :
    token.essence =
      { role := .newline, literal := "", kind := .newline, line := 0, number := 0 } := by
  rw [essence, if_pos boundary]

theorem essence_of_inner (inner : token.role.isBoundary = false) :
    token.essence =
      { role := token.role
        literal := if token.isTextless then "" else token.literal
        kind := .newline
        line := 0
        number := 0
        type := if token.role = .type then token.type else none
        value := token.value
        mutable := token.mutable
        temp := token.temp
        const := token.const
        expression := token.expression.map (List.map itemEssence) } := by
  rw [essence, if_neg (by simp [inner])]

/-- Inside a statement a token keeps its role. -/
theorem role_essence (inner : token.role.isBoundary = false) :
    token.essence.role = token.role := by
  rw [essence_of_inner inner]

theorem role_essence_eq_iff {role : Role} (inner : role.isBoundary = false) :
    token.essence.role = role ↔ token.role = role := by
  cases boundary : token.role.isBoundary with
  | false => rw [role_essence boundary]
  | true =>
    rw [essence_of_boundary boundary]
    constructor
    · rintro rfl
      cases inner
    · rintro rfl
      rw [boundary] at inner
      cases inner

@[simp] theorem isSegment_essence (token : AnnotatedToken) :
    token.essence.isSegment = token.isSegment := by
  cases boundary : token.role.isBoundary with
  | false => simp only [isSegment, role_essence boundary]
  | true =>
    rw [essence_of_boundary boundary]
    cases role : token.role <;> simp_all [isSegment, Role.isSegment, Role.isBoundary]

theorem inner_of_isSegment (segment : token.isSegment = true) :
    token.role.isBoundary = false := by
  cases role : token.role <;> simp_all [isSegment, Role.isSegment, Role.isBoundary]

theorem literal_essence (segment : token.isSegment = true) :
    token.essence.literal = token.literal := by
  have hasText : token.isTextless = false := by
    cases role : token.role <;> simp_all [isSegment, Role.isSegment, isTextless]
  rw [essence_of_inner (inner_of_isSegment segment)]
  simp only [hasText, Bool.false_eq_true, if_false]

@[simp] theorem line_essence (token : AnnotatedToken) : token.essence.line = 0 := by
  unfold essence
  split <;> rfl

@[simp] theorem number_essence (token : AnnotatedToken) : token.essence.number = 0 := by
  unfold essence
  split <;> rfl

end AnnotatedToken

open AnnotatedToken (essence)

/-! ## Paths -/

theorem pathTail_essence (tokens : List AnnotatedToken) :
    pathTail (tokens.map essence) = pathTail tokens := by
  induction tokens using pathTail.induct with
  | case1 arrow segment rest links inductionHypothesis =>
    have isArrow : arrow.essence.role = .arrow :=
      (AnnotatedToken.role_essence_eq_iff rfl).mpr links.1
    rw [List.map_cons, List.map_cons, pathTail, pathTail, if_pos links,
      if_pos ⟨isArrow, by simpa using links.2⟩, AnnotatedToken.literal_essence links.2,
      inductionHypothesis]
  | case2 arrow segment rest apart =>
    rw [List.map_cons, List.map_cons, pathTail, pathTail, if_neg apart, if_neg]
    rwa [AnnotatedToken.role_essence_eq_iff rfl, AnnotatedToken.isSegment_essence]
  | case3 tokens short =>
    match tokens, short with
    | [], _ => rfl
    | [_], _ => rfl
    | arrow :: segment :: rest, short => exact absurd rfl (short arrow segment rest)

theorem pathAt_essence (tokens : List AnnotatedToken) :
    pathAt (tokens.map essence) = pathAt tokens := by
  cases tokens with
  | nil => rfl
  | cons token rest =>
    simp only [List.map_cons, pathAt, AnnotatedToken.isSegment_essence, pathTail_essence]
    split
    · rename_i segment
      rw [AnnotatedToken.literal_essence segment]
    · rfl

theorem pathBefore_essence (passed : List AnnotatedToken) :
    pathBefore (passed.map essence) = pathBefore passed := by
  rw [pathBefore, pathBefore, pathAt_essence]

/-! ## Scopes -/

theorem Scope.alike_resolve (root : Scope) (path : List String)
    (line token otherLine otherToken : Option Int) :
    Alike Eq (root.resolve path line token) (root.resolve path otherLine otherToken) := by
  unfold Scope.resolve
  split
  · exact Alike.failing _ _ _ _ _ _
  · split
    · exact Alike.failing _ _ _ _ _ _
    · split
      · exact rfl
      · exact Alike.failing _ _ _ _ _ _

theorem Scope.alike_assign (root : Scope) {assignment other : Assignment}
    (path : assignment.path = other.path) (value : assignment.value = other.value)
    (type : assignment.type = other.type) (mutable : assignment.mutable = other.mutable)
    (temp : assignment.temp = other.temp) :
    Alike Eq (root.assign assignment) (root.assign other) := by
  have coerced : Alike Eq (coerceFor assignment) (coerceFor other) := by
    unfold coerceFor
    rw [path, value, type]
    split
    · split
      · exact Alike.failing _ _ _ _ _ _
      · exact Alike.refl
    · split
      · exact rfl
      · exact Alike.failing _ _ _ _ _ _
      · exact rfl
  rcases List.eq_nil_or_concat' assignment.path with empty | ⟨groups, name, ends⟩
  · rw [Scope.assign_nil empty, Scope.assign_nil (path ▸ empty)]
    exact Alike.failing _ _ _ _ _ _
  · rw [Scope.assign_eq ends, Scope.assign_eq (path ▸ ends), path]
    refine Alike.bind_eq ?_ fun _ => Alike.refl
    unfold Scope.entryFor
    split
    · rw [path]
      exact Alike.failing _ _ _ _ _ _
    · refine coerced.bind fun first second equal => ?_
      rw [equal, type, mutable, temp]
      exact Alike.refl

/-! ## Steps -/

def Target.essence (target : Target) : Target :=
  { target with line := 0, number := 0 }

/-- An inspection without its place. -/
def Inspection.essence (inspection : Inspection) : Inspection :=
  { inspection with line := 0, token := 0 }

namespace Interpretation

def State.essence (state : State) : State :=
  { state with
    inspections := state.inspections.map Inspection.essence
    pending := state.pending.map Target.essence }

theorem alike_targetEndingAt (type : Option String) (assign : AnnotatedToken)
    (passed : List AnnotatedToken) :
    Alike (fun target other => other = target.essence) (targetEndingAt type assign passed)
      (targetEndingAt type assign.essence (passed.map AnnotatedToken.essence)) := by
  cases passed with
  | nil => exact Alike.failing _ _ _ _ _ _
  | cons name passed =>
    simp only [List.map_cons, targetEndingAt,
      @AnnotatedToken.role_essence_eq_iff _ .identifier rfl]
    split
    · rename_i isName
      have path := pathBefore_essence (name :: passed)
      rw [List.map_cons] at path
      rw [path, AnnotatedToken.essence_of_inner (by rw [isName]; rfl)]
      exact rfl
    · exact Alike.failing _ _ _ _ _ _

theorem alike_targetBefore (assign : AnnotatedToken) (passed : List AnnotatedToken) :
    Alike (fun target other => other = target.essence) (targetBefore assign passed)
      (targetBefore assign.essence (passed.map AnnotatedToken.essence)) := by
  cases passed with
  | nil => exact Alike.failing _ _ _ _ _ _
  | cons last earlier =>
    simp only [List.map_cons, targetBefore, @AnnotatedToken.role_essence_eq_iff _ .type rfl]
    split
    · rename_i isType
      have type : last.essence.type = last.type := by
        rw [AnnotatedToken.essence_of_inner (by rw [isType]; rfl), isType]
        rfl
      rw [type]
      exact alike_targetEndingAt _ _ _
    · exact alike_targetEndingAt none assign (last :: earlier)

theorem alike_resolveReference (verbosity otherVerbosity : Nat) (root : Scope) (target : Target)
    (path : List String) (place other : AnnotatedToken) :
    Alike Eq (resolveReference verbosity root target path place).outcome
      (resolveReference otherVerbosity root target.essence path other).outcome := by
  have samePath : target.essence.path = target.path := rfl
  rw [outcome_resolveReference, outcome_resolveReference, samePath]
  refine (root.alike_resolve _ _ _ _ _).tryCatch fun failure second same => ?_
  have kind : failure.isNotFound = second.isNotFound := by
    rw [← failure.isNotFound_unplaced, ← second.isNotFound_unplaced, same]
  rw [kind]
  split
  · exact same
  · exact root.alike_resolve _ _ _ _ _

theorem alike_valueAfter (verbosity otherVerbosity : Nat) (root : Scope) (target : Target)
    (assign : AnnotatedToken) (rest : List AnnotatedToken) :
    Alike Eq (valueAfter verbosity root target assign rest).outcome
      (valueAfter otherVerbosity root target.essence assign.essence
        (rest.map AnnotatedToken.essence)).outcome := by
  cases rest with
  | nil => exact Alike.failing _ _ _ _ _ _
  | cons token rest =>
    have path := pathAt_essence (token :: rest)
    simp only [List.map_cons] at path
    simp only [List.map_cons, valueAfter, @AnnotatedToken.role_essence_eq_iff _ .value rfl,
      AnnotatedToken.isSegment_essence, path]
    split
    · rename_i isValue
      rw [AnnotatedToken.essence_of_inner (by rw [isValue]; rfl)]
      exact Alike.refl
    · split
      · simp only [Traced.outcome_bind]
        refine (alike_resolveReference _ _ _ _ _ _ _).bind_eq fun value => ?_
        exact rfl
      · exact Alike.failing _ _ _ _ _ _

theorem alike_commit (verbosity otherVerbosity : Nat) (state : State) (target : Target)
    (value : Option Value) :
    Alike (fun next other => other = next.essence) (commit verbosity state target value).outcome
      (commit otherVerbosity state.essence target.essence value).outcome := by
  simp only [commit, Traced.outcome_bind, Traced.outcome_note, Traced.outcome_lift]
  refine Alike.bind_eq (Scope.alike_assign state.root rfl rfl rfl rfl rfl) fun written => ?_
  exact rfl

theorem inspectPath_essence (root : Scope) (place : AnnotatedToken) (passed : List AnnotatedToken) :
    inspectPath root place.essence (passed.map AnnotatedToken.essence) =
      (inspectPath root place passed).essence := by
  simp only [inspectPath, pathBefore_essence, AnnotatedToken.line_essence,
    AnnotatedToken.number_essence]
  split
  · rfl
  · split <;> rfl

theorem alike_inspect (state : State) (place : AnnotatedToken) (passed : List AnnotatedToken) :
    Alike (fun inspection other => other = inspection.essence) (inspect state place passed)
      (inspect state.essence place.essence (passed.map AnnotatedToken.essence)) := by
  cases passed with
  | nil => exact inspectPath_essence state.root place []
  | cons last earlier =>
    have onPath := inspectPath_essence state.root place (last :: earlier)
    rw [List.map_cons] at onPath
    simp only [List.map_cons, inspect, @AnnotatedToken.role_essence_eq_iff _ .value rfl]
    split
    · rename_i isValue
      rw [AnnotatedToken.essence_of_inner (by rw [isValue]; rfl)]
      refine Alike.refl.bind_eq fun value => ?_
      simp [inspectValue, Inspection.essence, Alike]
    · by_cases isExpression : last.role = .expression
      · have alsoExpression := (@AnnotatedToken.role_essence_eq_iff last .expression rfl).mpr
          isExpression
        rw [isExpression, alsoExpression]
        cases result : state.result with
        | none =>
          simp only [State.essence, result]
          exact onPath
        | some value =>
          simp only [State.essence, result]
          simp [inspectValue, Inspection.essence, Alike]
      · have noExpression : last.essence.role ≠ .expression := fun isRole =>
          isExpression ((@AnnotatedToken.role_essence_eq_iff last .expression rfl).mp isRole)
        split
        · contradiction
        · split
          · contradiction
          · exact onPath

/-- A step over the end of a statement changes nothing. -/
theorem step_boundary {token : AnnotatedToken} (boundary : token.role.isBoundary = true)
    (verbosity : Nat) (state : State) (passed rest : List AnnotatedToken) :
    step verbosity state passed token rest = pure state := by
  cases role : token.role <;> simp_all [step, Role.isBoundary]

theorem expressionAhead_essence (rest : List AnnotatedToken) :
    (rest.map AnnotatedToken.essence).head?.any (·.role == .expression) =
      rest.head?.any (·.role == .expression) := by
  cases rest with
  | nil => rfl
  | cons next later =>
    have same := @AnnotatedToken.role_essence_eq_iff next .expression rfl
    rw [Bool.eq_iff_iff]
    simpa using same

section Step

variable (verbosity otherVerbosity : Nat) (state : State) (passed : List AnnotatedToken)
  {token : AnnotatedToken} (rest : List AnnotatedToken)

/-- Two runs of one step, over a program and over its essence, come out alike. -/
def StepsAlike (token : AnnotatedToken) : Prop :=
  Alike (fun next other => other = next.essence) (step verbosity state passed token rest).outcome
    (step otherVerbosity state.essence (passed.map AnnotatedToken.essence) token.essence
      (rest.map AnnotatedToken.essence)).outcome

theorem stepsAlike_assign (isAssign : token.role = .assign) :
    StepsAlike verbosity otherVerbosity state passed rest token := by
  have sameRole := (@AnnotatedToken.role_essence_eq_iff token .assign rfl).mpr isAssign
  simp only [StepsAlike, step, isAssign, sameRole, Traced.outcome_bind, Traced.outcome_lift,
    expressionAhead_essence]
  refine (alike_targetBefore token passed).bind_image fun target => ?_
  split
  · exact rfl
  · simp only [Traced.outcome_bind]
    refine (alike_valueAfter _ _ _ _ _ _).bind_eq fun value => ?_
    exact alike_commit _ _ _ _ _

theorem stepsAlike_expression (isExpression : token.role = .expression) :
    StepsAlike verbosity otherVerbosity state passed rest token := by
  have sameRole := (@AnnotatedToken.role_essence_eq_iff token .expression rfl).mpr isExpression
  have items : token.essence.expression =
      token.expression.map (List.map AnnotatedToken.itemEssence) := by
    rw [AnnotatedToken.essence_of_inner (by rw [isExpression]; rfl)]
  simp only [StepsAlike, step, isExpression, sameRole]
  cases pending : state.pending with
  | none =>
    simp only [State.essence, pending]
    exact Alike.failing _ _ _ _ _ _
  | some target =>
    cases expression : token.expression with
    | none =>
      simp only [State.essence, pending, items, expression]
      exact rfl
    | some run =>
      simp only [State.essence, pending, items, expression, Option.map_some, Traced.outcome_bind]
      refine (Expression.alike_evaluate verbosity otherVerbosity state.root
        (AnnotatedToken.sameItems run)).bind_eq fun value => ?_
      exact alike_commit verbosity otherVerbosity
        { state with pending := none, result := value } target value

theorem stepsAlike_inspect (isInspect : token.role = .inspect) :
    StepsAlike verbosity otherVerbosity state passed rest token := by
  have sameRole := (@AnnotatedToken.role_essence_eq_iff token .inspect rfl).mpr isInspect
  simp only [StepsAlike, step, isInspect, sameRole, Traced.outcome_bind, Traced.outcome_lift]
  refine (alike_inspect state token passed).bind_image fun inspection => ?_
  have same : State.essence { state with inspections := state.inspections ++ [inspection] } =
      { state.essence with
        inspections := state.essence.inspections ++ [inspection.essence] } := by
    simp [State.essence]
  exact same.symm

/-- A step over the essence of a program is like the step over the program. -/
theorem alike_step (token : AnnotatedToken) :
    StepsAlike verbosity otherVerbosity state passed rest token := by
  cases role : token.role with
  | assign => exact stepsAlike_assign verbosity otherVerbosity state passed rest role
  | expression => exact stepsAlike_expression verbosity otherVerbosity state passed rest role
  | inspect => exact stepsAlike_inspect verbosity otherVerbosity state passed rest role
  | newline | blockOpen | blockClose | endOfInput =>
    have boundary : token.role.isBoundary = true := by
      rw [role]
      rfl
    rw [StepsAlike, step_boundary boundary,
      step_boundary (by rw [AnnotatedToken.essence_of_boundary boundary]; rfl)]
    exact rfl
  | _ =>
    have sameRole := @AnnotatedToken.role_essence token (by rw [role]; rfl)
    simp only [StepsAlike, step, sameRole, role]
    exact rfl

end Step

theorem alike_walk (verbosity otherVerbosity : Nat) (state : State)
    (passed tokens : List AnnotatedToken) :
    Alike (fun next other => other = next.essence) (walk verbosity state passed tokens).outcome
      (walk otherVerbosity state.essence (passed.map AnnotatedToken.essence)
        (tokens.map AnnotatedToken.essence)).outcome := by
  induction tokens generalizing state passed with
  | nil => exact rfl
  | cons token rest inductionHypothesis =>
    simp only [List.map_cons, walk, Traced.outcome_bind]
    refine Alike.bind_image (alike_step verbosity otherVerbosity state passed rest token)
      fun next => ?_
    exact inductionHypothesis next (token :: passed)

end Interpretation

/-! ## Whole programs -/

/-- What an inspection reports after its place. -/
def Inspection.finding (inspection : Inspection) : String :=
  match inspection.subject with
  | none => "undefined"
  | some subject => subject ++ " : " ++ inspection.type ++ " = " ++ inspection.value

theorem Inspection.text_eq (inspection : Inspection) :
    inspection.text = "[" ++ toString inspection.line ++ ":" ++ toString inspection.token ++ "] " ++
      inspection.finding := by
  unfold text finding
  cases inspection.subject <;> simp [String.append_assoc]

theorem Inspection.finding_essence (inspection : Inspection) :
    inspection.essence.finding = inspection.finding := rfl

/-- Two runs have left the same tree and the same inspections, wherever these are reported. -/
def Outcome.SameUpToPlaces (left right : Outcome) : Prop :=
  left.root = right.root ∧
    left.inspections.map Inspection.finding = right.inspections.map Inspection.finding

theorem alike_interpret_of_walk {tokens others : List AnnotatedToken} {verbosity otherVerbosity : Nat}
    (walked : Alike (fun first second : Interpretation.State => first.essence = second.essence)
      (Interpretation.walk verbosity {} [] tokens).outcome
      (Interpretation.walk otherVerbosity {} [] others).outcome) :
    Alike Outcome.SameUpToPlaces (interpret verbosity tokens).outcome
      (interpret otherVerbosity others).outcome := by
  simp only [interpret, Traced.outcome_bind, Traced.outcome_note, Result.ok_bind]
  refine walked.bind fun first second equal => ⟨congrArg (·.root) equal, ?_⟩
  have inspections : first.inspections.map Inspection.essence =
      second.inspections.map Inspection.essence := congrArg (·.inspections) equal
  simpa [Function.comp_def, Inspection.finding_essence] using
    congrArg (List.map Inspection.finding) inspections

/-- Programs of the same essence have the same outcome up to places. -/
theorem alike_interpret {tokens others : List AnnotatedToken}
    (same : tokens.map essence = others.map essence) (verbosity otherVerbosity : Nat) :
    Alike Outcome.SameUpToPlaces (interpret verbosity tokens).outcome
      (interpret otherVerbosity others).outcome := by
  have left := Interpretation.alike_walk verbosity verbosity {} [] tokens
  have right := Interpretation.alike_walk otherVerbosity verbosity {} [] others
  rw [← same] at right
  have back : Alike (fun other next : Interpretation.State => other = next.essence)
      (Interpretation.walk verbosity ({} : Interpretation.State).essence []
        (tokens.map essence)).outcome
      (Interpretation.walk otherVerbosity {} [] others).outcome :=
    right.symm fun _ _ equal => equal
  exact alike_interpret_of_walk (left.trans back fun _ _ _ equal other => equal.symm.trans other)

end ParaLang
