import ParaLang.Proofs.Interpretation.Deeds
import ParaLang.Proofs.Interpretation.Runs

/-! # What statements do to the tree

Outside of all blocks a statement changes the tree by its assignment, if it has one, and by nothing
else.  Question marks only report, and they always find something to report. -/

namespace ParaLang.Interpretation

open ParaLang.Grammar
open ParaLang.Annotations

variable {verbosity : Nat} {state : State} {passed run rest : List AnnotatedToken}

/-! ## Tokens that leave the tree alone -/

/-- A step over the token changes no tree, and a question mark behind it finds a value. -/
def Idle (token : AnnotatedToken) : Prop :=
  token.role ≠ .assign ∧ token.role ≠ .expression ∧ (token.role = .value → token.value ≠ none)

/-- A literal that has just been passed has a value. -/
def Valued (passed : List AnnotatedToken) : Prop :=
  ∀ last ∈ passed.head?, last.role = .value → last.value ≠ none

theorem exists_inspect (valued : Valued passed) (state : State) (place : AnnotatedToken) :
    ∃ inspection, inspect state place passed = .ok inspection := by
  cases passed with
  | nil => exact ⟨_, rfl⟩
  | cons last earlier =>
    simp only [inspect]
    split
    · next isValue =>
      obtain ⟨value, given⟩ := Option.ne_none_iff_exists'.mp (valued last rfl isValue)
      rw [given]
      exact ⟨_, rfl⟩
    · split <;> exact ⟨_, rfl⟩

/-- Over idle tokens only the inspections grow. -/
theorem exists_walk_idle (idle : ∀ token ∈ run, Idle token) (valued : Valued passed)
    (state : State) : ∃ inspections, ∀ rest,
      (walk verbosity state passed (run ++ rest)).outcome =
        (walk verbosity { state with inspections := inspections } (run.reverse ++ passed)
          rest).outcome := by
  induction run generalizing state passed with
  | nil => exact ⟨state.inspections, fun rest => rfl⟩
  | cons token run inductionHypothesis =>
    obtain ⟨⟨noAssign, noExpression, hasValue⟩, idleRest⟩ := List.forall_mem_cons.mp idle
    have next : Valued (token :: passed) := by simpa [Valued] using hasValue
    obtain ⟨inspections, stepped⟩ : ∃ inspections, ∀ rest,
        (step verbosity state passed token rest).outcome =
          .ok { state with inspections := inspections } := by
      by_cases isInspect : token.role = .inspect
      · obtain ⟨inspection, inspected⟩ := exists_inspect valued state token
        exact ⟨state.inspections ++ [inspection], fun rest => by
          rw [outcome_step_inspect isInspect, inspected]
          rfl⟩
      · have quiet : isQuiet token = true := by simp [isQuiet, noAssign, noExpression, isInspect]
        exact ⟨state.inspections, fun rest => outcome_step_quiet quiet⟩
    obtain ⟨later, walked⟩ :=
      inductionHypothesis idleRest next { state with inspections := inspections }
    refine ⟨later, fun rest => ?_⟩
    simp only [List.cons_append, walk, Traced.outcome_bind, stepped, Result.ok_bind, walked]
    simp

theorem idle_links (links : List (NumberedToken × NumberedToken)) :
    ∀ token ∈ linkTokens links, Idle token := by
  intro token member
  obtain ⟨link, -, among⟩ := List.mem_flatMap.mp member
  simp only [List.mem_cons, List.not_mem_nil, or_false] at among
  rcases among with rfl | rfl <;> simp [Idle]

theorem idle_literal (token : NumberedToken) : Idle (readLiteralToken token) := by
  simp [Idle, readLiteralToken, literalToken]

theorem idle_definition (definition : Definition NumberedToken) :
    ∀ token ∈ definitionTokens [] definition, Idle token := by
  rw [definitionTokens_nil]
  refine List.forall_mem_append.mpr ⟨idle_links _, List.forall_mem_cons.mpr ⟨?_, ?_⟩⟩
  · simp [Idle, role_nameOf]
  · intro token member
    obtain ⟨clause, -, rfl⟩ := List.mem_map.mp member
    simp [Idle, typeToken]

theorem idle_segment (segment : Segment NumberedToken) :
    ∀ token ∈ segmentTokens [] segment, Idle token := by
  cases segment with
  | empty => simp [segmentTokens]
  | literal token => exact List.forall_mem_singleton.mpr (idle_literal token)
  | name definition => exact idle_definition definition

theorem idle_operand (operand : Operand NumberedToken) :
    ∀ token ∈ operandTokens [] operand, Idle token := by
  cases operand with
  | literal token => exact List.forall_mem_singleton.mpr (idle_literal token)
  | reference path =>
    refine List.forall_mem_append.mpr ⟨idle_links _, List.forall_mem_singleton.mpr ?_⟩
    simp [Idle]

theorem idle_question (question : NumberedToken) : Idle (question.inRole .inspect) := by
  simp [Idle]

theorem idle_more (more : List (NumberedToken × Segment NumberedToken)) :
    ∀ token ∈ moreTokens [] more, Idle token := by
  intro token member
  obtain ⟨link, -, among⟩ := List.mem_flatMap.mp member
  rcases List.mem_cons.mp among with rfl | inSegment
  · exact idle_question _
  · exact idle_segment _ token inSegment

theorem idle_segments (first : Segment NumberedToken)
    (more : List (NumberedToken × Segment NumberedToken)) :
    ∀ token ∈ segmentTokens [] first ++ moreTokens [] more, Idle token :=
  List.forall_mem_append.mpr ⟨idle_segment first, idle_more more⟩

theorem idle_inspected (inspected : List (NumberedToken × Option (Operand NumberedToken))) :
    ∀ token ∈ inspectedTokens [] inspected, Idle token := by
  intro token member
  obtain ⟨⟨question, operand⟩, -, among⟩ := List.mem_flatMap.mp member
  rcases List.mem_cons.mp among with rfl | inOperand
  · exact idle_question _
  · cases operand with
    | none => cases inOperand
    | some operand => exact idle_operand operand token inOperand

theorem separated_inspected (inspected : List (NumberedToken × Option (Operand NumberedToken))) :
    Separated (inspectedTokens [] inspected) := by
  cases inspected with
  | nil => exact separated_nil
  | cons link inspected => exact separated_cons rfl

/-! ## The tokens around an assignment -/

section Parts

variable (first : Segment NumberedToken) (more : List (NumberedToken × Segment NumberedToken))

theorem statementTokens_unbound :
    statementTokens [] ⟨first, more, none⟩ = segmentTokens [] first ++ moreTokens [] more := by
  simp [statementTokens]

theorem statementTokens_bound (equals : NumberedToken) (value : RightHandSide NumberedToken)
    (inspected : List (NumberedToken × Option (Operand NumberedToken))) :
    statementTokens [] ⟨first, more, some ⟨equals, value, inspected⟩⟩ =
      segmentTokens [] first ++ moreTokens [] more ++ equals.inRole .assign ::
        (valueTokens [] value ++ inspectedTokens [] inspected) := by
  simp [statementTokens, bindingTokens, inheritedTokens]

/-- The `=` of a statement is the first one. -/
theorem segments_noAssign : ∀ token ∈ segmentTokens [] first ++ moreTokens [] more,
    (token.role != .assign) = true :=
  fun token member => by simpa using (idle_segments first more token member).1

end Parts

/-- In front of the segment that is assigned to stand whole segments, each before a question mark. -/
theorem exists_front (first : Segment NumberedToken)
    (more : List (NumberedToken × Segment NumberedToken)) :
    ∃ front, Separated front.reverse ∧ (∀ token ∈ front, Idle token) ∧
      segmentTokens [] first ++ moreTokens [] more =
        front ++ segmentTokens [] (lastSegment first more) := by
  induction more generalizing first with
  | nil => exact ⟨[], separated_nil, by simp, by simp [moreTokens]⟩
  | cons link more inductionHypothesis =>
    obtain ⟨front, separated, idle, same⟩ := inductionHypothesis link.2
    refine ⟨segmentTokens [] first ++ link.1.inRole .inspect :: front, ?_, ?_, ?_⟩
    · rw [List.reverse_append, List.reverse_cons, List.append_assoc]
      cases reversed : front.reverse with
      | nil => exact separated_cons rfl
      | cons last before =>
        rw [reversed] at separated
        exact separated_cons (separated last rfl)
    · exact List.forall_mem_append.mpr ⟨idle_segment first,
        List.forall_mem_cons.mpr ⟨idle_question link.1, idle⟩⟩
    · have split : moreTokens [] (link :: more) =
          link.1.inRole .inspect :: (segmentTokens [] link.2 ++ moreTokens [] more) := by
        simp [moreTokens]
      rw [split, same, lastSegment_cons]
      simp

/-! ## Statements -/

/-- What a statement outside of all blocks does to a tree. -/
inductive Does (verbosity : Nat) (root : Scope) : Statement NumberedToken → Scope → Prop where
  | nothing {first : Segment NumberedToken} {more : List (NumberedToken × Segment NumberedToken)} :
      Does verbosity root ⟨first, more, none⟩ root
  | assigns {first : Segment NumberedToken} {more : List (NumberedToken × Segment NumberedToken)}
      {binding : Binding NumberedToken} {definition : Definition NumberedToken}
      {value : Option Value} {entry : Variable} {changed : Scope}
      (named : lastSegment first more = .name definition)
      (produced : valueOf verbosity (targetOf definition) binding.equals binding.value root =
        .ok value)
      (assigned : root.assign ((targetOf definition).assignment value) = .ok (entry, changed)) :
      Does verbosity root ⟨first, more, some binding⟩ changed

/-- Without a name in front of it an `=` has no target. -/
theorem targetBefore_unnamed {segment : Segment NumberedToken} (unnamed : segment.isName = false)
    {outer : List AnnotatedToken} (separated : Separated outer) (assign : AnnotatedToken) :
    targetBefore assign ((segmentTokens [] segment).reverse ++ outer) =
      fail .noIdentifier assign.line assign.number := by
  rw [targetBefore_append separated]
  cases segment with
  | empty => rfl
  | literal token => rfl
  | name definition => cases unnamed

theorem valued_of_idle (idle : ∀ token ∈ run, Idle token) : Valued run.reverse := fun last isLast =>
  (idle last (List.mem_reverse.mp (List.mem_of_mem_head? isLast))).2.2

theorem valued_assignment (assignment : PlainAssignment NumberedToken) :
    Valued (statementTokens [] assignment.statement).reverse := by
  rw [statementTokens_assignment]
  cases value : assignment.value with
  | single operand =>
    have idle := valued_of_idle (idle_operand operand)
    obtain ⟨last, others, ends⟩ : ∃ last others,
        (operandTokens [] operand).reverse = last :: others := by
      cases operand with
      | literal token => exact ⟨_, _, rfl⟩
      | reference path => exact ⟨_, _, List.reverse_concat' _ _⟩
    simp only [valueTokens, List.reverse_append, List.reverse_cons, ends] at idle ⊢
    simpa [Valued] using idle
  | expression first more =>
    obtain ⟨token, written, isExpression, -⟩ := exists_expressionToken first more
    simp [Valued, written, isExpression]

/-- The question marks behind an assignment find values. -/
theorem exists_walk_inspected (assignment : PlainAssignment NumberedToken)
    (inspected : List (NumberedToken × Option (Operand NumberedToken))) (state : State) :
    ∃ final, (walk verbosity state (statementTokens [] assignment.statement).reverse
      (inspectedTokens [] inspected)).outcome = .ok final ∧ final.root = state.root := by
  obtain ⟨later, ends⟩ := @exists_walk_idle verbosity _ _ (idle_inspected inspected)
    (valued_assignment assignment) state
  have finished := ends []
  rw [List.append_nil] at finished
  exact ⟨_, finished, rfl⟩

/-- Walking over a statement that assigns to a name does the deed of the assignment. -/
theorem exists_walk_binding {first : Segment NumberedToken}
    {more : List (NumberedToken × Segment NumberedToken)} {binding : Binding NumberedToken}
    {definition : Definition NumberedToken} (named : lastSegment first more = .name definition)
    (state : State) : ∃ inspections, ∀ changed,
      (∃ final, (walk verbosity state []
          (statementTokens [] ⟨first, more, some binding⟩)).outcome = .ok final ∧
            final.root = changed) ↔
        ∃ next, (deedOf verbosity ⟨definition, binding.equals, binding.value⟩).act
          { state with inspections := inspections } = .ok next ∧ next.root = changed := by
  obtain ⟨front, separated, idle, same⟩ := exists_front first more
  have split : statementTokens [] ⟨first, more, some binding⟩ =
      front ++ (statementTokens [] (PlainAssignment.statement ⟨definition, binding.equals,
        binding.value⟩) ++ inspectedTokens [] binding.inspected) := by
    rw [statementTokens, same, named, statementTokens_assignment]
    simp [segmentTokens, bindingTokens, inheritedTokens]
  obtain ⟨inspections, walked⟩ :=
    @exists_walk_idle verbosity [] front idle (by simp [Valued]) state
  have alike := @alike_walk_append
    (statementTokens [] (PlainAssignment.statement ⟨definition, binding.equals, binding.value⟩)) _
    (separated_inspected binding.inspected) verbosity { state with inspections := inspections } []
  rw [outcome_walk_assignment, List.append_nil] at alike
  have behind := @exists_walk_inspected verbosity
    ⟨definition, binding.equals, binding.value⟩ binding.inspected
  rw [split, walked, List.append_nil, walk_separated separated]
  refine ⟨inspections, fun changed => ⟨?_, ?_⟩⟩
  · rintro ⟨final, ended, rfl⟩
    obtain ⟨next, acted, goesOn⟩ := Result.bind_eq_ok_iff.mp (alike.ok_iff.mp ended)
    obtain ⟨other, finished, root⟩ := behind next
    rw [finished] at goesOn
    cases goesOn
    exact ⟨next, acted, root.symm⟩
  · rintro ⟨next, acted, rfl⟩
    obtain ⟨final, finished, root⟩ := behind next
    refine ⟨final, alike.ok_iff.mpr ?_, root⟩
    rw [acted, Result.ok_bind, finished]

theorem walk_unnamed {first : Segment NumberedToken}
    {more : List (NumberedToken × Segment NumberedToken)} {binding : Binding NumberedToken}
    (unnamed : (lastSegment first more).isName = false) {final : State} :
    (walk verbosity state [] (statementTokens [] ⟨first, more, some binding⟩)).outcome ≠
      .ok final := by
  obtain ⟨front, separated, -, same⟩ := exists_front first more
  obtain ⟨inspections, walked⟩ :=
    @exists_walk_idle verbosity [] _ (idle_segments first more) (by simp [Valued]) state
  have noTarget := targetBefore_unnamed unnamed separated (binding.equals.inRole .assign)
  rw [← List.reverse_append, ← same] at noTarget
  rw [statementTokens_bound, walked, List.append_nil]
  rw [walk, Traced.outcome_bind, outcome_step_assign (NumberedToken.role_inRole _ _), noTarget]
  rintro ⟨⟩

/-- Walking over a statement does to the tree what the statement does. -/
theorem does_iff {statement : Statement NumberedToken} {changed : Scope} :
    Does verbosity state.root statement changed ↔
      ∃ final, (walk verbosity state [] (statementTokens [] statement)).outcome = .ok final ∧
        final.root = changed := by
  obtain ⟨first, more, binding⟩ := statement
  cases binding with
  | none =>
    obtain ⟨inspections, walked⟩ :=
      @exists_walk_idle verbosity [] _ (idle_segments first more) (by simp [Valued]) state
    have finished := walked []
    rw [List.append_nil, ← statementTokens_unbound] at finished
    rw [finished]
    constructor
    · rintro ⟨⟩
      exact ⟨_, rfl, rfl⟩
    · rintro ⟨final, ended, rfl⟩
      cases ended
      exact .nothing
  | some binding =>
    cases target : lastSegment first more with
    | name definition =>
      obtain ⟨inspections, walks⟩ := @exists_walk_binding verbosity _ _ binding _ target state
      rw [walks changed, Deed.exists_act_iff]
      constructor
      · intro does
        cases does with
        | assigns named produced assigned =>
          rw [target] at named
          cases named
          exact ⟨_, _, produced, assigned⟩
      · rintro ⟨value, entry, produced, assigned⟩
        exact .assigns target produced assigned
    | empty | literal token =>
      have unnamed : (lastSegment first more).isName = false := by rw [target]; rfl
      constructor
      · intro does
        cases does with
        | assigns named =>
          rw [target] at named
          cases named
      · rintro ⟨final, ended, -⟩
        exact absurd ended (walk_unnamed unnamed)

/-- What some statements do to a tree one after another. -/
inductive DoAll (verbosity : Nat) : Scope → List (Statement NumberedToken) → Scope → Prop where
  | nil {root : Scope} : DoAll verbosity root [] root
  | cons {root middle changed : Scope} {statement : Statement NumberedToken}
      {statements : List (Statement NumberedToken)} (does : Does verbosity root statement middle)
      (later : DoAll verbosity middle statements changed) :
      DoAll verbosity root (statement :: statements) changed

theorem doAll_iff {statements : List (Statement NumberedToken)} {changed : Scope} :
    DoAll verbosity state.root statements changed ↔
      ∃ final, perform verbosity state (statements.map (statementTokens [])) = .ok final ∧
        final.root = changed := by
  induction statements generalizing state with
  | nil =>
    constructor
    · rintro ⟨⟩
      exact ⟨state, rfl, rfl⟩
    · rintro ⟨final, ended, rfl⟩
      cases ended
      exact .nil
  | cons statement statements inductionHypothesis =>
    constructor
    · intro all
      cases all with
      | cons does later =>
        obtain ⟨next, walked, rfl⟩ := does_iff.mp does
        obtain ⟨final, performed, root⟩ := inductionHypothesis.mp later
        refine ⟨final, ?_, root⟩
        rw [List.map_cons, perform, walked, Result.ok_bind, performed]
    · rintro ⟨final, performed, root⟩
      obtain ⟨next, walked, later⟩ := Result.bind_eq_ok_iff.mp performed
      exact .cons (does_iff.mpr ⟨next, walked, rfl⟩) (inductionHypothesis.mpr ⟨final, later, root⟩)

end ParaLang.Interpretation
