import ParaLang.Proofs.Annotations.Reading

/-! # Reading whole statements

An `=` looks at its whole right-hand side at once: an expression is extracted there, any other
right-hand side is left to the walk.  With the segments of the module before, this gives what the
walk writes for a statement. -/

namespace ParaLang.Annotations

open ParaLang.Grammar

/-! ## Kinds of right-hand sides -/

/-- An operand is made of tokens of expressions, none of which is arithmetic. -/
theorem kinds_of_operand {α : Type} {kind : α → TokenKind} {operand : Operand α}
    (kinds : operand.WellKinded kind) :
    ∀ token ∈ operand.leaves,
      inExpression (kind token) = true ∧ isArithmetic (kind token) = false := by
  intro token member
  cases operand with
  | literal literal =>
    simp only [Operand.leaves, List.mem_singleton] at member
    subst member
    have isLiteral : (kind token).isLiteral = true := kinds
    cases actual : kind token <;>
      simp_all [TokenKind.isLiteral, inExpression, isArithmetic, TokenKind.isOperator]
  | reference path =>
    rcases Path.kind_leaves kinds token member with isName | isArrow
    · rw [isName]
      exact ⟨rfl, rfl⟩
    · rw [isArrow]
      exact ⟨rfl, rfl⟩

theorem kinds_of_value {α : Type} {kind : α → TokenKind} {value : RightHandSide α}
    (kinds : value.WellKinded kind) :
    ∀ token ∈ value.leaves, inExpression (kind token) = true := by
  cases value with
  | single operand => exact fun token member => (kinds_of_operand kinds token member).1
  | expression first more => exact kinds.1

theorem expressionItems_readable (previous : Option Role) {tokens : List NumberedToken}
    (kinds : ∀ token ∈ tokens, inExpression token.kind = true) (readable : Readable tokens) :
    ∃ items, expressionItems previous tokens = .ok items := by
  induction tokens generalizing previous with
  | nil => exact ⟨[], rfl⟩
  | cons token tokens inductionHypothesis =>
    have itemRead : ∃ item, expressionItem token = .ok item := by
      cases literal : token.kind.isLiteral with
      | true =>
        obtain ⟨value, read⟩ := readable token (by simp) literal
        exact ⟨_, expressionItem_eq_ok_iff.mpr (.inl ⟨literal, value, read, rfl⟩)⟩
      | false => exact ⟨_, expressionItem_of_kind literal (kinds token (by simp))⟩
    obtain ⟨item, itemRead⟩ := itemRead
    obtain ⟨later, laterRead⟩ := inductionHypothesis (some item.role)
      (fun other member => kinds other (by simp [member]))
      (fun other member => readable other (by simp [member]))
    cases inserts : previous.any (juxtaposed · item.role) with
    | true =>
      exact ⟨insertedStar item :: item :: later, by
        simp [expressionItems, itemRead, laterRead, inserts]⟩
    | false =>
      exact ⟨item :: later, by simp [expressionItems, itemRead, laterRead, inserts]⟩

theorem readable_of_items {previous : Option Role} {tokens : List NumberedToken}
    {items : List AnnotatedToken} (read : expressionItems previous tokens = .ok items) :
    Readable tokens := by
  induction tokens generalizing previous items with
  | nil => simp [Readable]
  | cons token tokens inductionHypothesis =>
    simp only [expressionItems, Result.bind_eq_ok_iff] at read
    obtain ⟨item, itemRead, later, laterRead, -⟩ := read
    intro other member literal
    rcases List.mem_cons.mp member with rfl | member
    · rcases expressionItem_eq_ok_iff.mp itemRead with ⟨-, value, valueRead, -⟩ | ⟨notLiteral, -⟩
      · exact ⟨value, valueRead⟩
      · rw [literal] at notLiteral
        cases notLiteral
    · exact inductionHypothesis laterRead other member literal

/-! ## Assignments -/

section Assignments

variable {state : State} {passed : List NumberedToken} {follow : NumberedToken}
  {rest : List NumberedToken}

/-- The `=` of a statement, with the type that it inherits. -/
def State.assign (state : State) (target : Segment NumberedToken) (equals : NumberedToken) :
    State :=
  { state with
    output := equals.inRole .assign ::
      ((inheritedTokens state.frames target equals).reverse ++ state.output)
    assigned := true
    typed := state.typed || !(inheritedTokens state.frames target equals).isEmpty }

theorem assign_inheritType {target : Segment NumberedToken} (named : state.named = target.isName)
    (typed : state.typed = target.isTyped) (equals : NumberedToken) :
    { inheritType state equals with assigned := true }.write (equals.inRole .assign) =
      state.assign target equals := by
  cases inherited : state.frames.findSome? Frame.memberType with
  | none =>
    simp [inheritType, State.memberType?, inherited, State.write, State.assign, inheritedTokens]
  | some type =>
    cases isName : target.isName <;> cases isTyped : target.isTyped <;>
      simp [inheritType, State.memberType?, inherited, State.write, State.assign, inheritedTokens,
        named, typed, isName, isTyped]

theorem walk_value {value : RightHandSide NumberedToken} {target : Segment NumberedToken}
    {equals : NumberedToken} (isEquals : equals.kind = .equals)
    (kinds : value.WellKinded NumberedToken.kind) (readable : Readable value.leaves)
    (unassigned : state.assigned = false) (named : state.named = target.isName)
    (typed : state.typed = target.isTyped) (ends : endsRightHandSide follow.kind = true) :
    walk state passed 0 (equals :: (value.leaves ++ follow :: rest)) =
      walk { state.assign target equals with
          output := (valueTokens state.frames value).reverse ++ (state.assign target equals).output }
        (value.leaves.reverse ++ equals :: passed) 0 (follow :: rest) := by
  have inside : ∀ token ∈ value.leaves, endsRightHandSide token.kind = false ∧
      token.kind ≠ .equals := fun token member =>
    endsRightHandSide_of_inExpression (kinds_of_value kinds token member)
  have whole : rightHandSide (value.leaves ++ follow :: rest) = .ok value.leaves :=
    rightHandSide_append inside ends
  have goesOn : equals.kind ≠ .endOfInput := by simp [isEquals]
  cases value with
  | single operand =>
    obtain ⟨first, more, split⟩ : ∃ first more, operand.leaves = first :: more := by
      cases operand with
      | literal token => exact ⟨token, [], rfl⟩
      | reference path =>
        obtain ⟨name, more, split, -⟩ := Path.exists_first kinds
        exact ⟨name, more, split⟩
    have plain : (first :: more).any (isArithmetic ·.kind) = false := by
      rw [← split, List.any_eq_false]
      intro token member
      rw [(kinds_of_operand kinds token member).2]
      simp
    have stepped : step state passed equals (operand.leaves ++ follow :: rest) =
        .ok (state.assign target equals, 0) := by
      simp only [step, isEquals]
      simp only [RightHandSide.leaves, split] at whole ⊢
      simp only [readAssignment, unassigned, Bool.false_eq_true, if_false, whole, Result.ok_bind,
        plain]
      rw [assign_inheritType named typed]
      rfl
    have noArrow : follow.kind ≠ .arrow := kind_ne_of_test ends rfl
    have fresh : Fresh (state.assign target equals) (equals :: passed) :=
      ⟨rfl, by simp [isEquals, opensSegment], by simp [State.assign, State.modifiable]⟩
    simp only [RightHandSide.leaves]
    rw [walk_step goesOn stepped, walk_operand kinds readable fresh rfl noArrow]
    rfl
  | expression first more =>
    obtain ⟨items, read⟩ := expressionItems_readable none kinds.1 readable
    have extracted := expressionToken_of_items read
    have stepped : step state passed equals (first :: more ++ follow :: rest) =
        .ok ({ state.assign target equals with
          output := (valueTokens state.frames (.expression first more)).reverse ++
            (state.assign target equals).output }, (first :: more).length) := by
      simp only [step, isEquals]
      simp only [RightHandSide.leaves] at whole
      simp only [readAssignment, unassigned, Bool.false_eq_true, if_false, whole, Result.ok_bind,
        kinds.2, if_true, extracted]
      rw [assign_inheritType named typed]
      simp [State.write, valueTokens, extracted, Except.toOption]
    simp only [RightHandSide.leaves]
    rw [walk_step goesOn stepped, walk_skip]

/-- Behind a right-hand side stands the next question mark or what follows the inspected segments. -/
theorem exists_behind_inspected {inspected : List (NumberedToken × Option (Operand NumberedToken))}
    (kinds : ∀ link ∈ inspected, link.1.kind = .question ∧
      ∀ operand ∈ link.2, operand.WellKinded NumberedToken.kind)
    {fits : TokenKind → Prop} (question : fits .question) (last : fits follow.kind) :
    ∃ next later, fits next.kind ∧ inspectedLeaves inspected ++ follow :: rest = next :: later := by
  cases inspected with
  | nil => exact ⟨follow, rest, last, rfl⟩
  | cons link inspected =>
    refine ⟨link.1, _, ?_, rfl⟩
    rw [(kinds link (by simp)).1]
    exact question

/-- Some segments, each after a question mark, follow a right-hand side. -/
theorem walk_inspected {inspected : List (NumberedToken × Option (Operand NumberedToken))}
    (kinds : ∀ link ∈ inspected, link.1.kind = .question ∧
      ∀ operand ∈ link.2, operand.WellKinded NumberedToken.kind)
    (readable : Readable (inspectedLeaves inspected)) (assigned : state.assigned = true)
    (noArrow : follow.kind ≠ .arrow) :
    ∃ named typed, walk state passed 0 (inspectedLeaves inspected ++ follow :: rest) =
      walk { state with
          output := (inspectedTokens state.frames inspected).reverse ++ state.output
          named := named
          typed := typed }
        ((inspectedLeaves inspected).reverse ++ passed) 0 (follow :: rest) := by
  induction inspected generalizing state passed with
  | nil => exact ⟨state.named, state.typed, rfl⟩
  | cons link inspected inductionHypothesis =>
    obtain ⟨question, operand⟩ := link
    obtain ⟨isQuestion, operandKinds⟩ := kinds (question, operand) (by simp)
    simp only at isQuestion operandKinds
    obtain ⟨operandReadable, laterReadable⟩ :=
      (Readable.inspectedLeaves_cons isQuestion).mp readable
    have laterKinds := fun link member => kinds link (List.mem_cons_of_mem _ member)
    obtain ⟨next, later, nextNoArrow, split⟩ := @exists_behind_inspected follow rest inspected
      laterKinds (· ≠ .arrow) (by simp) noArrow
    have unfolded : inspectedLeaves ((question, operand) :: inspected) =
        question :: ((operand.map Operand.leaves).getD [] ++ inspectedLeaves inspected) := rfl
    obtain ⟨named, typed, continued⟩ := @inductionHypothesis
      { state.question question with
        output := ((operand.map (operandTokens state.frames)).getD []).reverse ++
          (state.question question).output }
      (((operand.map Operand.leaves).getD []).reverse ++ question :: passed) laterKinds laterReadable
      assigned
    refine ⟨named, typed, ?_⟩
    rw [unfolded, List.cons_append, List.append_assoc, split,
      walk_questioned isQuestion operandKinds operandReadable assigned nextNoArrow, ← split]
    refine continued.trans ?_
    simp [State.question, State.write, inspectedTokens]

end Assignments

/-! ## Statements -/

/-- A statement that annotation accepts. -/
structure Sound (statement : Statement NumberedToken) : Prop where
  kinds : statement.WellKinded NumberedToken.kind
  compatible : statement.Compatible NumberedToken.kind
  readable : Readable statement.leaves

/-- An empty line is a statement. -/
theorem sound_empty : Sound ⟨.empty, [], none⟩ where
  kinds := ⟨trivial, by simp, by simp⟩
  compatible := ⟨trivial, by simp⟩
  readable := by simp [Readable, Statement.leaves, Segment.leaves, segmentLeaves]

/-- A statement may start here. -/
structure AtLineStart (state : State) (passed : List NumberedToken) : Prop where
  written : ∀ last ∈ state.output.head?, last.role.isBoundary = true
  apart : ∀ previous ∈ passed.head?, endsStatement previous.kind = true
  unassigned : state.assigned = false
  unnamed : state.named = false
  untyped : state.typed = false

/-- Tokens that end a line other than the header of a block. -/
def endsLine : TokenKind → Bool
  | .newline | .rightBrace | .endOfInput => true
  | _ => false

section Lines

variable {state : State} {passed : List NumberedToken} {follow : NumberedToken}
  {rest : List NumberedToken}

theorem AtLineStart.fresh (atStart : AtLineStart state passed) : Fresh state passed where
  starts := by
    cases output : state.output with
    | nil => simp [State.startsPath, output]
    | cons last earlier =>
      have boundary := atStart.written last (by simp [output])
      have noArrow : last.role ≠ .arrow := by
        intro isArrow
        simp [isArrow, Role.isBoundary] at boundary
      simp [State.startsPath, output, noArrow]
  opened := by
    intro previous member
    have ends := atStart.apart previous member
    cases kind : previous.kind <;> simp_all [endsStatement, opensSegment]
  unnamed := by simp [State.modifiable, atStart.unnamed]

theorem endsSegment_of_endsLine {kind : TokenKind} (ends : endsLine kind = true) :
    endsSegment kind = true := by
  cases kind <;> simp_all [endsLine, endsSegment]

theorem endsRightHandSide_of_endsLine {kind : TokenKind} (ends : endsLine kind = true) :
    endsRightHandSide kind = true := by
  cases kind <;> simp_all [endsLine, endsRightHandSide]

/-- Walking over the segments in front of the `=` or of the end of the line. -/
theorem walk_segments {first : Segment NumberedToken}
    {more : List (NumberedToken × Segment NumberedToken)}
    (firstKinds : first.WellKinded NumberedToken.kind)
    (moreKinds : ∀ link ∈ more, link.1.kind = .question ∧ link.2.WellKinded NumberedToken.kind)
    (firstCompatible : first.Compatible NumberedToken.kind)
    (moreCompatible : ∀ link ∈ more, link.2.Compatible NumberedToken.kind)
    (readable : Readable (first.leaves ++ segmentLeaves more)) (atStart : AtLineStart state passed)
    (ends : endsSegment follow.kind = true) :
    walk state passed 0 (first.leaves ++ segmentLeaves more ++ follow :: rest) =
      walk { state with
          output := (segmentTokens state.frames first ++ moreTokens state.frames more).reverse ++
            state.output
          named := (lastSegment first more).isName
          typed := (lastSegment first more).isTyped }
        ((first.leaves ++ segmentLeaves more).reverse ++ passed) 0 (follow :: rest) := by
  obtain ⟨firstReadable, moreReadable⟩ := Readable.append.mp readable
  obtain ⟨next, later, nextEnds, split⟩ := @exists_behind_segment follow rest more moreKinds ends
  have continued := @walk_more
    { state with
      output := (segmentTokens state.frames first).reverse ++ state.output
      named := first.isName
      typed := first.isTyped }
    (first.leaves.reverse ++ passed) follow rest first more moreKinds moreCompatible moreReadable
    atStart.unassigned rfl rfl ends
  rw [List.append_assoc, split, walk_segment firstKinds firstCompatible firstReadable atStart.fresh
    atStart.unassigned atStart.unnamed atStart.untyped nextEnds, ← split]
  refine continued.trans ?_
  simp

/-- Walking over an `=` with what follows it. -/
theorem walk_binding {binding : Binding NumberedToken} {target : Segment NumberedToken}
    (kinds : binding.WellKinded NumberedToken.kind) (readable : Readable binding.leaves)
    (unassigned : state.assigned = false) (named : state.named = target.isName)
    (typed : state.typed = target.isTyped) (ends : endsLine follow.kind = true) :
    ∃ named typed, walk state passed 0 (binding.leaves ++ follow :: rest) =
      walk ⟨(bindingTokens state.frames target binding).reverse ++ state.output, state.frames,
          true, named, typed⟩
        (binding.leaves.reverse ++ passed) 0 (follow :: rest) := by
  obtain ⟨equals, value, inspected⟩ := binding
  obtain ⟨isEquals, valueKinds, inspectedKinds⟩ := kinds
  simp only at isEquals valueKinds inspectedKinds
  obtain ⟨valueReadable, inspectedReadable⟩ := (Readable.binding isEquals).mp readable
  have noArrow : follow.kind ≠ .arrow := kind_ne_of_test ends rfl
  obtain ⟨next, later, nextEnds, split⟩ := @exists_behind_inspected follow rest inspected
    inspectedKinds (endsRightHandSide · = true) rfl (endsRightHandSide_of_endsLine ends)
  obtain ⟨lastNamed, lastTyped, continued⟩ := @walk_inspected
    { state.assign target equals with
      output := (valueTokens state.frames value).reverse ++ (state.assign target equals).output }
    (value.leaves.reverse ++ equals :: passed) follow rest inspected inspectedKinds
    inspectedReadable rfl noArrow
  refine ⟨lastNamed, lastTyped, ?_⟩
  simp only [Binding.leaves, List.cons_append, List.append_assoc]
  rw [split, walk_value isEquals valueKinds valueReadable unassigned named typed nextEnds, ← split]
  refine continued.trans ?_
  simp [State.assign, bindingTokens]

/-- Walking over a statement writes its tokens. -/
theorem walk_statement {statement : Statement NumberedToken} (sound : Sound statement)
    (atStart : AtLineStart state passed) (ends : endsLine follow.kind = true) :
    ∃ assigned named typed, walk state passed 0 (statement.leaves ++ follow :: rest) =
      walk ⟨(statementTokens state.frames statement).reverse ++ state.output, state.frames,
          assigned, named, typed⟩
        (statement.leaves.reverse ++ passed) 0 (follow :: rest) := by
  obtain ⟨first, more, binding⟩ := statement
  obtain ⟨⟨firstKinds, moreKinds, bindingKinds⟩, ⟨firstCompatible, moreCompatible⟩, readable⟩ :=
    sound
  obtain ⟨segmentsReadable, bindingReadable⟩ := Readable.append.mp readable
  have segments {next : NumberedToken} (later : List NumberedToken)
      (nextEnds : endsSegment next.kind = true) :=
    @walk_segments state passed next later first more firstKinds moreKinds firstCompatible
      moreCompatible segmentsReadable atStart nextEnds
  cases binding with
  | none =>
    refine ⟨state.assigned, (lastSegment first more).isName, (lastSegment first more).isTyped, ?_⟩
    simp only [Statement.leaves, Option.map_none, Option.getD_none, List.append_nil,
      statementTokens]
    exact segments rest (endsSegment_of_endsLine ends)
  | some binding =>
    obtain ⟨equals, value, inspected⟩ := binding
    have bindingKinds := bindingKinds _ rfl
    have equalsEnds : endsSegment equals.kind = true := by
      rw [bindingKinds.1]
      rfl
    obtain ⟨lastNamed, lastTyped, continued⟩ := @walk_binding
      { state with
        output := (segmentTokens state.frames first ++ moreTokens state.frames more).reverse ++
          state.output
        named := (lastSegment first more).isName
        typed := (lastSegment first more).isTyped }
      ((first.leaves ++ segmentLeaves more).reverse ++ passed) follow rest
      ⟨equals, value, inspected⟩ (lastSegment first more) bindingKinds bindingReadable
      atStart.unassigned rfl rfl ends
    refine ⟨true, lastNamed, lastTyped, ?_⟩
    simp only [Statement.leaves, Option.map_some, Option.getD_some, List.append_assoc,
      Binding.leaves, List.cons_append] at continued segments ⊢
    rw [segments _ equalsEnds]
    refine continued.trans ?_
    simp [statementTokens, Statement.target]

end Lines

end ParaLang.Annotations
