import ParaLang.Proofs.Annotations.Assignments
import ParaLang.Proofs.Interpretation.Likeness
import ParaLang.Proofs.Interpretation.References

/-! # What an assignment does

Outside of all blocks a plain assignment takes a value from the tree and writes it at its target.
It reads no variables but those at a few paths that its right-hand side shows.  So two assignments
that do not touch what the other one reads or writes do the same in either order. -/

namespace ParaLang.Grammar

/-! ## What an assignment may read -/

/-- The names of the scopes that a path leads through. -/
def Path.groups (path : Path Token) : List String :=
  path.outer.map (·.1.literal)

def Path.names (path : Path Token) : List String :=
  path.groups ++ [path.last.literal]

@[simp] theorem Path.groups_unplaced (path : Path Token) :
    (path.map Token.unplaced).groups = path.groups := by
  simp [groups, map, Function.comp_def, Token.unplaced]

@[simp] theorem Path.names_unplaced (path : Path Token) :
    (path.map Token.unplaced).names = path.names := by
  rw [names, groups_unplaced]
  rfl

/-- The paths that a right-hand side may read in an assignment to a variable in some scopes: that
of a reference, also without these scopes, and those of the names of an expression.  An expression
with an arrow has no value, so nothing is read for it. -/
def RightHandSide.MayRead (groups path : List String) : RightHandSide Token → Prop
  | .single (.literal _) => False
  | .single (.reference reference) =>
    path = reference.names ∨ (groups ≠ [] ∧ path ≠ [] ∧ reference.names = groups ++ path)
  | .expression first more =>
    (∀ token ∈ first :: more, token.kind ≠ .arrow) ∧
      ∃ token ∈ first :: more, token.kind = .identifier ∧ path = [token.literal]

namespace PlainAssignment

def target (assignment : PlainAssignment Token) : List String :=
  assignment.definition.path.names

def MayRead (assignment : PlainAssignment Token) (path : List String) : Prop :=
  assignment.value.MayRead assignment.definition.path.groups path

/-- Neither assignment writes where the other one writes or may read. -/
structure Independent (first second : PlainAssignment Token) : Prop where
  distinct : first.target ≠ second.target
  unread : ¬ first.MayRead second.target
  secondUnread : ¬ second.MayRead first.target

theorem Independent.symm {first second : PlainAssignment Token}
    (independent : first.Independent second) : second.Independent first :=
  ⟨independent.distinct.symm, independent.secondUnread, independent.unread⟩

@[simp] theorem target_unplaced (assignment : PlainAssignment Token) :
    (assignment.map Token.unplaced).target = assignment.target :=
  Path.names_unplaced _

@[simp] theorem mayRead_unplaced (assignment : PlainAssignment Token) (path : List String) :
    (assignment.map Token.unplaced).MayRead path ↔ assignment.MayRead path := by
  obtain ⟨definition, equals, value⟩ := assignment
  rcases value with (token | reference) | ⟨first, more⟩
  · rfl
  · simp [MayRead, map, Definition.map, RightHandSide.map, Operand.map, RightHandSide.MayRead]
  · simp [MayRead, map, RightHandSide.map, RightHandSide.MayRead, Token.unplaced]

/-- Whether assignments are independent is not a matter of their places. -/
theorem Independent.elsewhere {first second other otherSecond : PlainAssignment Token}
    (independent : first.Independent second)
    (same : other.map Token.unplaced = first.map Token.unplaced)
    (sameSecond : otherSecond.map Token.unplaced = second.map Token.unplaced) :
    other.Independent otherSecond := by
  have target : other.target = first.target := by
    rw [← target_unplaced, same, target_unplaced]
  have secondTarget : otherSecond.target = second.target := by
    rw [← target_unplaced, sameSecond, target_unplaced]
  obtain ⟨distinct, unread, secondUnread⟩ := independent
  rw [← mayRead_unplaced] at unread secondUnread
  refine ⟨by rwa [target, secondTarget], ?_, ?_⟩
  · rwa [secondTarget, ← mayRead_unplaced, same]
  · rwa [target, ← mayRead_unplaced, sameSecond]

end PlainAssignment

end ParaLang.Grammar

namespace ParaLang.Interpretation

open ParaLang.Grammar
open ParaLang.Annotations

/-! ## Deeds -/

/-- A value that is taken from the tree and written at a target. -/
structure Deed where
  target : Target
  value : Scope → Result (Option Value)
  /-- Whether the value is that of an expression. -/
  evaluates : Bool

namespace Deed

/-- The state after the value has been written. -/
def after (deed : Deed) (state : State) (value : Option Value) (root : Scope) : State :=
  if deed.evaluates then { state with root := root, pending := none, result := value }
  else { state with root := root }

def act (deed : Deed) (state : State) : Result State := do
  let value ← deed.value state.root
  let (_, root) ← state.root.assign (deed.target.assignment value)
  return deed.after state value root

/-- The value is taken from the variables at some paths. -/
def ReadsOnly (deed : Deed) (reads : List String → Prop) : Prop :=
  ∀ root other : Scope, (∀ path, reads path → root.find? path = other.find? path) →
    (deed.value root).toOption = (deed.value other).toOption

variable {deed first second : Deed} {state middle final : State}

theorem act_eq_ok_iff : deed.act state = .ok final ↔
    ∃ value entry root, deed.value state.root = .ok value ∧
      state.root.assign (deed.target.assignment value) = .ok (entry, root) ∧
      deed.after state value root = final := by
  simp [act, Result.bind_eq_ok_iff]

@[simp] theorem root_after (value : Option Value) (root : Scope) :
    (deed.after state value root).root = root := by
  unfold after
  split <;> rfl

@[simp] theorem inspections_after (value : Option Value) (root : Scope) :
    (deed.after state value root).inspections = state.inspections := by
  unfold after
  split <;> rfl

@[simp] theorem pending_after (value : Option Value) (root : Scope) :
    (deed.after state value root).pending = if deed.evaluates then none else state.pending := by
  unfold after
  split <;> rfl

/-- The tree after a deed is the one after its assignment. -/
theorem exists_act_iff {changed : Scope} :
    (∃ final, deed.act state = .ok final ∧ final.root = changed) ↔
      ∃ value entry, deed.value state.root = .ok value ∧
        state.root.assign (deed.target.assignment value) = .ok (entry, changed) := by
  constructor
  · rintro ⟨final, acted, rfl⟩
    obtain ⟨value, entry, root, taken, assigned, rfl⟩ := act_eq_ok_iff.mp acted
    exact ⟨value, entry, taken, by rw [assigned, root_after]⟩
  · rintro ⟨value, entry, taken, assigned⟩
    exact ⟨_, act_eq_ok_iff.mpr ⟨value, entry, changed, taken, assigned, rfl⟩, root_after _ _⟩

/-- A deed takes the same value where all that it reads is the same. -/
theorem ReadsOnly.value_eq {reads : List String → Prop} (readsOnly : deed.ReadsOnly reads)
    {root other : Scope} (same : ∀ path, reads path → root.find? path = other.find? path)
    {value : Option Value} (taken : deed.value root = .ok value) :
    deed.value other = .ok value := by
  have equal := readsOnly root other same
  rw [taken] at equal
  cases given : deed.value other with
  | error failure => simp [given, Except.toOption] at equal
  | ok found =>
    simp only [given, Except.toOption, Option.some.injEq] at equal
    rw [equal]

/-- A deed takes the same value before and after an assignment at a path that it does not read. -/
theorem ReadsOnly.value_assign {reads : List String → Prop} (readsOnly : deed.ReadsOnly reads)
    {assignment : Assignment} {root changed : Scope} {entry : Variable}
    (unread : ¬ reads assignment.path) (assigned : root.assign assignment = .ok (entry, changed))
    {value : Option Value} : deed.value changed = .ok value ↔ deed.value root = .ok value := by
  have same : ∀ path, reads path → changed.find? path = root.find? path := by
    intro path isRead
    apply Scope.find?_assign_of_ne assigned
    rintro rfl
    exact unread isRead
  constructor
  · exact readsOnly.value_eq same
  · exact readsOnly.value_eq fun path isRead => (same path isRead).symm

/-- Two deeds that do not touch what the other one reads or writes can be done in either order. -/
theorem exists_act_exchanged {reads secondReads : List String → Prop}
    (readsOnly : first.ReadsOnly reads) (secondReadsOnly : second.ReadsOnly secondReads)
    (distinct : first.target.path ≠ second.target.path) (unread : ¬ reads second.target.path)
    (secondUnread : ¬ secondReads first.target.path)
    (acted : first.act state = .ok middle) (actedLater : second.act middle = .ok final) :
    ∃ other turned, second.act state = .ok other ∧ first.act other = .ok turned ∧
      Similar [] final turned := by
  obtain ⟨value, entry, root, taken, assigned, rfl⟩ := act_eq_ok_iff.mp acted
  obtain ⟨later, laterEntry, last, laterTaken, laterAssigned, rfl⟩ := act_eq_ok_iff.mp actedLater
  rw [root_after] at laterTaken laterAssigned
  obtain ⟨other, turned, otherAssigned, turnedAssigned, same⟩ :=
    Scope.exists_assign_exchanged distinct assigned laterAssigned
  rw [secondReadsOnly.value_assign secondUnread assigned] at laterTaken
  rw [← readsOnly.value_assign unread otherAssigned] at taken
  have secondActs : second.act state = .ok (second.after state later other) :=
    act_eq_ok_iff.mpr ⟨later, laterEntry, other, laterTaken, otherAssigned, rfl⟩
  have firstActs : first.act (second.after state later other) =
      .ok (first.after (second.after state later other) value turned) := by
    apply act_eq_ok_iff.mpr
    rw [root_after]
    exact ⟨value, entry, turned, taken, turnedAssigned, rfl⟩
  refine ⟨_, _, secondActs, firstActs, by simpa using same, by simp, ?_, by simp⟩
  -- no target waits after an expression, whichever comes first
  simp only [pending_after]
  split <;> split <;> rfl

end Deed

/-! ## Paths as they are written -/

section Paths

variable {last : AnnotatedToken}

/-- The names in front of the arrows of some links. -/
def linkNames (links : List (NumberedToken × NumberedToken)) : List String :=
  links.map (·.1.literal)

theorem pathAt_links (links : List (NumberedToken × NumberedToken))
    (isSegment : last.isSegment = true) :
    pathAt (linkTokens links ++ [last]) = linkNames links ++ [last.literal] := by
  induction links with
  | nil => simp [linkTokens, linkNames, pathAt, isSegment, pathTail]
  | cons link links inductionHypothesis =>
    have tail : pathTail (link.2.inRole .arrow :: (linkTokens links ++ [last])) =
        linkNames links ++ [last.literal] := by
      rw [pathTail_arrow rfl, inductionHypothesis]
    exact congrArg (link.1.literal :: ·) tail

/-- Read backward the links show the names from the inside out. -/
theorem pathTail_links (links : List (NumberedToken × NumberedToken)) :
    pathTail (linkTokens links).reverse = (linkNames links).reverse := by
  induction links using List.reverseRecOn with
  | nil => rfl
  | append_singleton links link inductionHypothesis =>
    have tokens : (linkTokens (links ++ [link])).reverse =
        link.2.inRole .arrow :: link.1.inRole .group :: (linkTokens links).reverse := by
      simp [linkTokens]
    have names : (linkNames (links ++ [link])).reverse =
        link.1.literal :: (linkNames links).reverse := by
      simp [linkNames]
    rw [tokens, pathTail_arrow rfl, names, ← inductionHypothesis]
    rfl

end Paths

/-! ## Assignments as deeds -/

open Grammar (Definition)

/-- The name of a definition with its modifiers. -/
def nameOf (definition : Definition NumberedToken) : AnnotatedToken :=
  withModifiers definition.allModifiers (definition.path.last.inRole .identifier)

theorem role_nameOf (definition : Definition NumberedToken) :
    (nameOf definition).role = .identifier := by
  simp [nameOf]

theorem literal_nameOf (definition : Definition NumberedToken) :
    (nameOf definition).literal = definition.path.last.literal := by
  simp [nameOf, withModifiers_eq]

/-- The target that stands before an `=` outside of all blocks. -/
def targetOf (definition : Definition NumberedToken) : Target where
  path := (definition.path.map NumberedToken.token).names
  type := definition.clause.map (·.type.literal)
  mutable := (nameOf definition).mutable
  temp := (nameOf definition).temp
  line := (nameOf definition).line
  number := (nameOf definition).number

/-- The value that a right-hand side produces outside of all blocks. -/
def valueOf (verbosity : Nat) (target : Target) (equals : NumberedToken)
    (value : RightHandSide NumberedToken) (root : Scope) : Result (Option Value) :=
  match value with
  | .single operand =>
    (valueAfter verbosity root target (equals.inRole .assign) (operandTokens [] operand)).outcome
  | .expression first more =>
    match (expressionToken first more).toOption.bind AnnotatedToken.expression with
    | none => .error (.fault .missingExpression)
    | some run => (Expression.evaluate verbosity root run).outcome

/-- What a plain assignment does outside of all blocks. -/
def deedOf (verbosity : Nat) (assignment : PlainAssignment NumberedToken) : Deed where
  target := targetOf assignment.definition
  value := valueOf verbosity (targetOf assignment.definition) assignment.equals assignment.value
  evaluates :=
    match assignment.value with
    | .single _ => false
    | .expression _ _ => true

theorem names_map (path : Grammar.Path NumberedToken) :
    (path.map NumberedToken.token).names = linkNames path.outer ++ [path.last.literal] := by
  simp [Grammar.Path.names, Grammar.Path.groups, Grammar.Path.map, linkNames, NumberedToken.literal]

theorem definitionTokens_nil (definition : Definition NumberedToken) :
    definitionTokens [] definition =
      linkTokens definition.path.outer ++ nameOf definition :: clauseTokens definition.clause := by
  simp [definitionTokens, pathTokens, spliced, State.blockPath, nameOf]

theorem targetBefore_definition (assign : AnnotatedToken) (definition : Definition NumberedToken) :
    targetBefore assign (definitionTokens [] definition).reverse = .ok (targetOf definition) := by
  have path : pathBefore (nameOf definition :: (linkTokens definition.path.outer).reverse) =
      (definition.path.map NumberedToken.token).names := by
    have segment : (nameOf definition).isSegment = true := by
      simp [AnnotatedToken.isSegment, role_nameOf, Role.isSegment]
    simp [names_map, pathBefore, pathAt, segment, pathTail_links, literal_nameOf]
  have ending (type : Option String) :
      targetEndingAt type assign
        (nameOf definition :: (linkTokens definition.path.outer).reverse) =
        .ok { targetOf definition with type := type } := by
    simp [targetEndingAt, path, targetOf, role_nameOf]
  have type : (targetOf definition).type = definition.clause.map (·.type.literal) := rfl
  rw [definitionTokens_nil]
  cases clause : definition.clause with
  | none =>
    have untyped : { targetOf definition with type := none } = targetOf definition := by
      simp only [clause, Option.map_none] at type
      rw [← type]
    simp [clauseTokens, targetBefore, role_nameOf, ending, untyped]
  | some found =>
    have typed : { targetOf definition with type := some found.type.literal } =
        targetOf definition := by
      simp only [clause, Option.map_some] at type
      rw [← type]
    simp [clauseTokens, targetBefore, typeToken, ending, typed]

/-! ## Walking over an assignment -/

section Walks

variable {verbosity : Nat} {run rest passed : List AnnotatedToken}

theorem outcome_walk_quiet (quiet : ∀ token ∈ run, isQuiet token = true) (state : State) :
    (walk verbosity state passed (run ++ rest)).outcome =
      (walk verbosity state (run.reverse ++ passed) rest).outcome := by
  induction run generalizing passed with
  | nil => rfl
  | cons token run inductionHypothesis =>
    obtain ⟨ofToken, ofRun⟩ := List.forall_mem_cons.mp quiet
    simp only [List.cons_append, walk, Traced.outcome_bind, step_quiet ofToken,
      Traced.outcome_pure, Result.ok_bind, inductionHypothesis ofRun]
    simp

theorem quiet_links (links : List (NumberedToken × NumberedToken)) :
    ∀ token ∈ linkTokens links, isQuiet token = true := by
  intro token member
  obtain ⟨link, -, among⟩ := List.mem_flatMap.mp member
  simp only [List.mem_cons, List.not_mem_nil, or_false] at among
  rcases among with rfl | rfl <;> rfl

theorem quiet_definition (definition : Definition NumberedToken) :
    ∀ token ∈ definitionTokens [] definition, isQuiet token = true := by
  rw [definitionTokens_nil]
  refine List.forall_mem_append.mpr ⟨quiet_links _, List.forall_mem_cons.mpr ⟨?_, ?_⟩⟩
  · simp [isQuiet, role_nameOf]
  · intro token member
    obtain ⟨clause, -, rfl⟩ := List.mem_map.mp member
    rfl

theorem quiet_operand (operand : Operand NumberedToken) :
    ∀ token ∈ operandTokens [] operand, isQuiet token = true := by
  cases operand with
  | literal token => exact List.forall_mem_singleton.mpr rfl
  | reference path =>
    exact List.forall_mem_append.mpr ⟨quiet_links _, List.forall_mem_singleton.mpr rfl⟩

theorem statementTokens_assignment (assignment : PlainAssignment NumberedToken) :
    statementTokens [] assignment.statement =
      definitionTokens [] assignment.definition ++
        assignment.equals.inRole .assign :: valueTokens [] assignment.value := by
  simp [PlainAssignment.statement, statementTokens, segmentTokens, moreTokens, bindingTokens,
    inheritedTokens, inspectedTokens]

/-- An expression is written as one token that carries its items, if there are any. -/
theorem exists_expressionToken (first : NumberedToken) (more : List NumberedToken) :
    ∃ token : AnnotatedToken, valueTokens [] (.expression first more) = [token] ∧
      token.role = .expression ∧
      token.expression = (expressionToken first more).toOption.bind AnnotatedToken.expression := by
  refine ⟨_, rfl, ?_⟩
  cases items : expressionItems none (first :: more) with
  | error failure => simp [expressionToken, items, Except.toOption, NumberedToken.inRole]
  | ok read => simp [expressionToken_of_items items, Except.toOption, extractedToken]

/-- Walking over a plain assignment does its deed. -/
theorem outcome_walk_assignment (assignment : PlainAssignment NumberedToken) (state : State) :
    (walk verbosity state [] (statementTokens [] assignment.statement)).outcome =
      (deedOf verbosity assignment).act state := by
  obtain ⟨definition, equals, value⟩ := assignment
  rw [statementTokens_assignment, outcome_walk_quiet (quiet_definition definition)]
  have aims := targetBefore_definition (equals.inRole .assign) definition
  simp only [walk, Traced.outcome_bind, step, NumberedToken.role_inRole, List.append_nil,
    Traced.outcome_lift, aims, Result.ok_bind, Deed.act, deedOf]
  cases value with
  | single operand =>
    have quiet := quiet_operand operand
    have plain : (operandTokens [] operand).head?.any (·.role == .expression) = false := by
      cases written : operandTokens [] operand with
      | nil => rfl
      | cons first others =>
        have ofFirst := quiet first (by simp [written])
        simp_all [isQuiet]
    have ends (next : State) (passed : List AnnotatedToken) :
        (walk verbosity next passed (operandTokens [] operand)).outcome = .ok next := by
      simpa [walk] using @outcome_walk_quiet verbosity _ [] passed quiet next
    simp only [valueTokens, plain, Bool.false_eq_true, if_false, Traced.outcome_bind, ends,
      outcome_commit, valueOf, bind_assoc]
    refine bind_congr fun value => ?_
    cases state.root.assign ((targetOf definition).assignment value) <;> rfl
  | expression first more =>
    obtain ⟨token, written, isExpression, items⟩ := exists_expressionToken first more
    simp only [written, List.head?_cons, Option.any_some, isExpression, beq_self_eq_true, if_true,
      Traced.outcome_pure, Result.ok_bind, walk, step, items, valueOf, Traced.outcome_bind]
    cases (expressionToken first more).toOption.bind AnnotatedToken.expression with
    | none => rfl
    | some run =>
      simp only [Traced.outcome_bind, outcome_commit, bind_assoc]
      refine bind_congr fun value => ?_
      cases state.root.assign ((targetOf definition).assignment value) <;> rfl

end Walks

/-! ## What the deed of an assignment reads -/

section Reads

variable {verbosity : Nat}

theorem pathAt_reference (path : Grammar.Path NumberedToken) :
    pathAt (operandTokens [] (.reference path)) = (path.map NumberedToken.token).names := by
  rw [names_map]
  exact @pathAt_links (path.last.inRole .lookup) path.outer rfl

theorem length_linkTokens (links : List (NumberedToken × NumberedToken)) :
    (linkTokens links).length = 2 * links.length := by
  induction links with
  | nil => rfl
  | cons link links inductionHypothesis =>
    have split : linkTokens (link :: links) =
        link.1.inRole .group :: link.2.inRole .arrow :: linkTokens links := rfl
    simp only [split, List.length_cons, inductionHypothesis]
    omega

/-- A reference starts with a segment of a path, and the path takes up all of it. -/
theorem exists_reference (path : Grammar.Path NumberedToken) :
    ∃ first others, operandTokens [] (.reference path) = first :: others ∧
      first.isSegment = true ∧
      others.length = pathWidth (path.map NumberedToken.token).names - 1 := by
  obtain ⟨outer, last⟩ := path
  cases outer with
  | nil => exact ⟨_, [], rfl, rfl, rfl⟩
  | cons link links =>
    refine ⟨link.1.inRole .group, link.2.inRole .arrow :: (linkTokens links ++ [last.inRole .lookup]),
      rfl, rfl, ?_⟩
    simp only [names_map, linkNames, pathWidth, List.length_cons, List.length_append,
      List.length_map, length_linkTokens, List.length_nil]
    omega

theorem toOption_valueAfter (root : Scope) (target : Target) (assign : AnnotatedToken)
    (path : Grammar.Path NumberedToken) :
    (valueAfter verbosity root target assign
        (operandTokens [] (.reference path))).outcome.toOption =
      (Statement.reference? root target.path.dropLast
        (path.map NumberedToken.token).names).map fun found => some found.value := by
  obtain ⟨first, others, written, segment, -⟩ := exists_reference path
  rw [← pathAt_reference, written]
  exact toOption_valueAfter_segment root target assign segment others

theorem name_of_item {token : NumberedToken} {item : AnnotatedToken}
    (read : expressionItem token = .ok item) (isLookup : item.role = .lookup) :
    token.kind = .identifier ∧ item.literal = token.literal := by
  rcases expressionItem_eq_ok_iff.mp read with ⟨-, value, -, rfl⟩ | ⟨-, -, rfl⟩
  · cases isLookup
  · refine ⟨?_, rfl⟩
    rw [NumberedToken.role_inRole] at isLookup
    cases kind : token.kind <;>
      simp_all [itemRole, TokenKind.isLiteral, TokenKind.isOperator]

/-- The items of an expression look up the names among its tokens. -/
theorem looksUp_items {previous : Option Role} {tokens : List NumberedToken}
    {items : List AnnotatedToken} (read : expressionItems previous tokens = .ok items) :
    Expression.LooksUp (fun name => ∃ token ∈ tokens, token.kind = .identifier ∧
      name = token.literal) items := by
  refine forall_items (by rintro _ _ ⟨⟩) (fun token member item itemRead isLookup => ?_) read
  exact ⟨token, member, name_of_item itemRead isLookup⟩

/-- An arrow among the tokens of an expression is one of its items. -/
theorem arrow_of_items {previous : Option Role} {tokens : List NumberedToken}
    {items : List AnnotatedToken} (read : expressionItems previous tokens = .ok items)
    (hasArrow : ∃ token ∈ tokens, token.kind = .arrow) : ∃ item ∈ items, item.role = .arrow := by
  induction tokens generalizing previous items with
  | nil => simp at hasArrow
  | cons token rest inductionHypothesis =>
    obtain ⟨item, itemRead, read⟩ := Result.bind_eq_ok_iff.mp read
    obtain ⟨later, laterRead, written⟩ := Result.bind_eq_ok_iff.mp read
    have among : item :: later ⊆ items := by
      split at written
      · obtain rfl := Except.ok.inj written
        exact List.subset_cons_self _ _
      · obtain rfl := Except.ok.inj written
        exact List.Subset.refl _
    obtain ⟨arrow, inTokens, isArrow⟩ := hasArrow
    rcases List.mem_cons.mp inTokens with rfl | inRest
    · refine ⟨item, among List.mem_cons_self, ?_⟩
      rw [role_expressionItem itemRead, isArrow]
      rfl
    · obtain ⟨found, inLater, isRole⟩ := inductionHypothesis laterRead ⟨arrow, inRest, isArrow⟩
      exact ⟨found, among (List.mem_cons_of_mem _ inLater), isRole⟩

/-- The deed of an assignment reads what the assignment may read. -/
theorem readsOnly_deedOf (assignment : PlainAssignment NumberedToken) :
    (deedOf verbosity assignment).ReadsOnly (assignment.map NumberedToken.token).MayRead := by
  obtain ⟨definition, equals, value⟩ := assignment
  intro root other same
  cases value with
  | single operand =>
    cases operand with
    | literal token => rfl
    | reference path =>
      have groups : (targetOf definition).path.dropLast =
          (definition.path.map NumberedToken.token).groups := List.dropLast_concat
      simp only [deedOf, valueOf, toOption_valueAfter]
      rw [reference?_congr (same _ (.inl rfl)) fun shorter isShorter => same _ (.inr ?_)]
      rwa [groups] at isShorter
  | expression first more =>
    simp only [deedOf, valueOf]
    cases extracted : (expressionToken first more).toOption.bind AnnotatedToken.expression with
    | none => rfl
    | some run =>
      have read : expressionItems none (first :: more) = .ok run := by
        cases read : expressionItems none (first :: more) with
        | error failure => simp [expressionToken, read, Except.toOption] at extracted
        | ok items =>
          simpa [expressionToken_of_items read, Except.toOption, extractedToken] using extracted
      by_cases hasArrow : ∃ token ∈ first :: more, token.kind = .arrow
      · have inItems := arrow_of_items read hasArrow
        simp only [Expression.toOption_evaluate_arrow inItems]
      · have noArrow : ∀ token ∈ first :: more, token.kind ≠ .arrow := by simpa using hasArrow
        refine congrArg Except.toOption (Expression.evaluate_congr (fun name isName => ?_) verbosity
          (looksUp_items read))
        obtain ⟨token, member, isIdentifier, rfl⟩ := isName
        have map_leaves : (first :: more).map NumberedToken.token =
            first.token :: more.map NumberedToken.token := rfl
        refine same _ ⟨?_, token.token, ?_, isIdentifier, rfl⟩
        · rw [← map_leaves]
          exact List.forall_mem_map.mpr noArrow
        · rw [← map_leaves]
          exact List.mem_map_of_mem member

end Reads

end ParaLang.Interpretation
