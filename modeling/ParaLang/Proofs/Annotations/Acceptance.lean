import ParaLang.Proofs.Annotations.Refusal

/-! # Accepted programs

The walk from the start of a line either fails or has a program in front of it.  With the walk over
a program this gives the token lists that annotation accepts. -/

namespace ParaLang.Annotations

open ParaLang.Grammar

variable {allowed : Failure → Prop} (structural : ∀ failure, IsStructural failure → allowed failure)
  {state : State} {passed rest : List NumberedToken}

include structural

/-! ## Ends -/

omit structural in
theorem endsRightHandSide_of_endsSegment {kind : TokenKind} (ends : endsSegment kind = true)
    (noEquals : kind ≠ .equals) : endsRightHandSide kind = true := by
  cases kind <;> simp_all [endsSegment, endsRightHandSide]

omit structural in
theorem endsSegment_of_endsRightHandSide {kind : TokenKind} (ends : endsRightHandSide kind = true) :
    endsSegment kind = true := by
  cases kind <;> simp_all [endsRightHandSide, endsSegment]

omit structural in
theorem endsLine_of_endsRightHandSide {kind : TokenKind} (ends : endsRightHandSide kind = true)
    (noQuestion : kind ≠ .question) : endsLine kind = true := by
  cases kind <;> simp_all [endsRightHandSide, endsLine]

omit structural in
theorem not_endsSegment_of_inExpression {kind : TokenKind} (belongs : inExpression kind = true) :
    endsSegment kind = false := by
  cases kind <;> simp_all [inExpression, TokenKind.isLiteral, TokenKind.isOperator, endsSegment]

omit structural in
theorem not_endsSegment {kind : TokenKind} (goesOn : endsRightHandSide kind = false)
    (noEquals : kind ≠ .equals) : endsSegment kind = false := by
  cases kind <;> simp_all [endsRightHandSide, endsSegment]

omit structural in
theorem endsLine_iff {kind : TokenKind} :
    endsLine kind = true ↔ kind = .newline ∨ kind = .rightBrace ∨ kind = .endOfInput := by
  cases kind <;> simp [endsLine]

/-! ## Segments -/

omit structural in
theorem noHeader_question {question : NumberedToken} (isQuestion : question.kind = .question)
    (tokens : List NumberedToken) : NoHeader state (question :: passed) tokens := by
  intro atStart
  simp [isQuestion, endsStatement] at atStart

/-- The segments after a segment, each with its question mark. -/
theorem more_or_refused {state : State} {passed rest : List NumberedToken}
    {follow : NumberedToken} (unassigned : state.assigned = false)
    (ends : endsSegment follow.kind = true) (bounded : Bounded allowed (follow :: rest)) :
    Refused allowed (walk state passed 0 (follow :: rest)) ∨
      ∃ more next later, follow :: rest = segmentLeaves more ++ next :: later ∧
        (∀ link ∈ more, link.1.kind = .question ∧ link.2.WellKinded NumberedToken.kind) ∧
        (∀ link ∈ more, link.2.Compatible NumberedToken.kind) ∧
        Readable (segmentLeaves more) ∧ endsSegment next.kind = true ∧ next.kind ≠ .question := by
  by_cases isQuestion : follow.kind = .question
  · have goesOn : follow.kind ≠ .endOfInput := by simp [isQuestion]
    have boundedRest := bounded.tail goesOn
    rcases segment_or_refused structural (fresh_question isQuestion) unassigned rfl
      (by simp [State.question, State.write]) (noHeader_question isQuestion _) boundedRest with
      refused | ⟨segment, next, later, rfl, kinds, compatible, readable, nextEnds⟩
    · left
      rw [walk_question isQuestion]
      exact refused
    · have walked := @walk_segment (state.question follow) (follow :: passed) next later segment
        kinds compatible readable (fresh_question isQuestion) unassigned rfl rfl nextEnds
      have shorter : later.length < (segment.leaves ++ next :: later).length := by
        simp
        omega
      have boundedNext := boundedRest.after (goesOn_of_inLine (Segment.inLine kinds))
      have unassignedNext : State.assigned { state.question follow with
          output := (segmentTokens (state.question follow).frames segment).reverse ++
            (state.question follow).output
          named := segment.isName
          typed := segment.isTyped } = false := unassigned
      rcases more_or_refused unassignedNext nextEnds boundedNext with
        refused | ⟨more, last, final, split, moreKinds, moreCompatible, moreReadable, lastEnds, done⟩
      · left
        rw [walk_question isQuestion, walked]
        exact refused
      · right
        refine ⟨(follow, segment) :: more, last, final, ?_, ?_, ?_, ?_, lastEnds, done⟩
        · rw [split]
          simp [segmentLeaves]
        · simpa using ⟨⟨isQuestion, kinds⟩, fun question segment => moreKinds (question, segment)⟩
        · simpa using ⟨compatible, fun question segment => moreCompatible (question, segment)⟩
        · exact (Readable.segmentLeaves_cons isQuestion).mpr ⟨readable, moreReadable⟩
  · exact .inr ⟨[], follow, rest, rfl, by simp, by simp, by simp [Readable, segmentLeaves], ends,
      isQuestion⟩
termination_by rest.length

/-! ## Right-hand sides -/

omit structural in
theorem cut_unique {accepts : TokenKind → Bool} {before other after later : List NumberedToken}
    {first second : NumberedToken} (inside : ∀ token ∈ before, accepts token.kind = false)
    (otherInside : ∀ token ∈ other, accepts token.kind = false)
    (firstEnds : accepts first.kind = true) (secondEnds : accepts second.kind = true)
    (same : before ++ first :: after = other ++ second :: later) :
    before = other ∧ first = second ∧ after = later := by
  induction before generalizing other with
  | nil =>
    cases other with
    | nil => simpa using same
    | cons token other =>
      have open_ := otherInside token (by simp)
      simp only [List.nil_append, List.cons_append, List.cons.injEq] at same
      rw [← same.1, firstEnds] at open_
      cases open_
  | cons token before inductionHypothesis =>
    cases other with
    | nil =>
      have open_ := inside token (by simp)
      simp only [List.nil_append, List.cons_append, List.cons.injEq] at same
      rw [same.1, secondEnds] at open_
      cases open_
    | cons otherToken other =>
      simp only [List.cons_append, List.cons.injEq] at same
      obtain ⟨rfl, rfl, rfl⟩ := inductionHypothesis (fun token member => inside token (by simp [member]))
        (fun token member => otherInside token (by simp [member])) same.2
      exact ⟨by rw [same.1], rfl, rfl⟩

theorem rightHandSide_or_refused {tokens : List NumberedToken} (bounded : Bounded allowed tokens) :
    Refused allowed (rightHandSide tokens) ∨
      ∃ run terminator later, tokens = run ++ terminator :: later ∧
        rightHandSide tokens = .ok run ∧ endsRightHandSide terminator.kind = true ∧
        ∀ token ∈ run, endsSegment token.kind = false := by
  induction tokens with
  | nil =>
    obtain ⟨first, rest, absurd⟩ := bounded.ne_nil
    cases absurd
  | cons token tokens inductionHypothesis =>
    cases ends : endsRightHandSide token.kind with
    | true => exact .inr ⟨[], token, tokens, rfl, by simp [rightHandSide, ends], ends, by simp⟩
    | false =>
      have goesOn : token.kind ≠ .endOfInput := by
        intro isEnd
        simp [isEnd, endsRightHandSide] at ends
      by_cases isEquals : token.kind = .equals
      · left
        rw [rightHandSide, ends, if_neg (by simp), if_pos isEquals]
        exact refused_refuse structural rfl token
      · rw [rightHandSide, ends, if_neg (by simp), if_neg isEquals]
        rcases inductionHypothesis (bounded.tail goesOn) with
          refused | ⟨run, terminator, later, rfl, read, terminatorEnds, inside⟩
        · exact .inl (refused.bind _)
        · refine .inr ⟨token :: run, terminator, later, rfl, by rw [read]; rfl, terminatorEnds, ?_⟩
          intro other member
          rcases List.mem_cons.mp member with rfl | member
          · exact not_endsSegment ends isEquals
          · exact inside other member

theorem allowed_of_item {token : NumberedToken} {failure : Failure}
    (number : ∀ failure, literalValue token = .error failure → allowed failure)
    (read : expressionItem token = .error failure) : allowed failure := by
  unfold expressionItem at read
  split at read
  · cases valueRead : literalValue token with
    | error inner =>
      rw [valueToken, valueRead] at read
      cases read
      exact number _ valueRead
    | ok value =>
      rw [valueToken, valueRead] at read
      cases read
  · split at read
    · cases read
    · split at read
      case h_5 =>
        cases read
        exact structural _ rfl
      all_goals cases read

theorem items_or_refused {previous : Option Role} {tokens : List NumberedToken}
    (numbers : ∀ token ∈ tokens, ∀ failure, literalValue token = .error failure → allowed failure) :
    Refused allowed (expressionItems previous tokens) ∨
      ∃ items, expressionItems previous tokens = .ok items := by
  induction tokens generalizing previous with
  | nil => exact .inr ⟨[], rfl⟩
  | cons token tokens inductionHypothesis =>
    rw [expressionItems]
    cases read : expressionItem token with
    | error failure =>
      have refused := allowed_of_item structural (numbers token List.mem_cons_self) read
      exact .inl (Refused.bind ⟨failure, rfl, refused⟩ _)
    | ok item =>
      have later := @inductionHypothesis item.role fun other member =>
        numbers other (by simp [member])
      rw [Result.ok_bind]
      rcases later with refused | ⟨items, laterRead⟩
      · exact .inl (refused.bind _)
      · rw [laterRead, Result.ok_bind]
        split
        · exact .inr ⟨_, rfl⟩
        · exact .inr ⟨_, rfl⟩

theorem refused_second {equals : NumberedToken} (isEquals : equals.kind = .equals)
    (assigned : state.assigned = true) :
    Refused allowed (walk state passed 0 (equals :: rest)) := by
  refine refused_step (by simp [isEquals]) ?_
  simp only [step, isEquals, readAssignment, assigned, if_true]
  exact refused_refuse structural rfl equals

/-- The inspected segments after a right-hand side, each with its question mark. -/
theorem inspected_or_refused {state : State} {passed rest : List NumberedToken}
    {follow : NumberedToken} (assigned : state.assigned = true)
    (ends : endsRightHandSide follow.kind = true) (bounded : Bounded allowed (follow :: rest)) :
    Refused allowed (walk state passed 0 (follow :: rest)) ∨
      ∃ inspected next later, follow :: rest = inspectedLeaves inspected ++ next :: later ∧
        (∀ link ∈ inspected, link.1.kind = .question ∧
          ∀ operand ∈ link.2, operand.WellKinded NumberedToken.kind) ∧
        Readable (inspectedLeaves inspected) ∧ endsLine next.kind = true := by
  by_cases isQuestion : follow.kind = .question
  · have goesOn : follow.kind ≠ .endOfInput := by simp [isQuestion]
    have boundedRest := bounded.tail goesOn
    have fresh : Fresh (state.question follow) (follow :: passed) := fresh_question isQuestion
    rcases operand_or_refused structural fresh assigned (by simp [State.question, State.write])
      boundedRest with refused | ⟨operand, next, later, rfl, operandSound, nextEnds⟩
    · left
      rw [walk_question isQuestion]
      exact refused
    have noArrow : next.kind ≠ .arrow := kind_ne_of_test nextEnds rfl
    have operandKinds := fun inner inside => (operandSound inner inside).1
    have operandReadable := fun inner inside => (operandSound inner inside).2
    have walked := @walk_questioned state passed next later follow isQuestion operand operandKinds
      operandReadable assigned noArrow
    have inside : ∀ token ∈ (operand.map Operand.leaves).getD [], inLine token.kind = true := by
      cases operand with
      | none => simp
      | some operand => exact Operand.inLine (operandKinds operand rfl)
    rw [walked]
    by_cases isEquals : next.kind = .equals
    · exact .inl (refused_second structural isEquals assigned)
    · have nextEndsValue := endsRightHandSide_of_endsSegment nextEnds isEquals
      have shorter : later.length < ((operand.map Operand.leaves).getD [] ++ next :: later).length := by
        simp
        omega
      have assignedNext : State.assigned { state.question follow with
          output := ((operand.map (operandTokens state.frames)).getD []).reverse ++
            (state.question follow).output } = true := assigned
      rcases inspected_or_refused assignedNext nextEndsValue
        (boundedRest.after (goesOn_of_inLine inside)) with
        refused | ⟨inspected, last, final, split, inspectedKinds, inspectedReadable, lastEnds⟩
      · exact .inl refused
      · right
        refine ⟨(follow, operand) :: inspected, last, final, ?_,
          List.forall_mem_cons.mpr ⟨⟨isQuestion, operandKinds⟩, inspectedKinds⟩,
          (Readable.inspectedLeaves_cons isQuestion).mpr ⟨operandReadable, inspectedReadable⟩,
          lastEnds⟩
        rw [split]
        simp [inspectedLeaves]
  · exact .inr ⟨[], follow, rest, rfl, by simp, by simp [Readable, inspectedLeaves],
      endsLine_of_endsRightHandSide ends isQuestion⟩
termination_by rest.length

/-! ## Assignments -/

/-- The right-hand side of an `=`. -/
theorem value_or_refused {target : Segment NumberedToken} {equals : NumberedToken}
    (isEquals : equals.kind = .equals) (unassigned : state.assigned = false)
    (named : state.named = target.isName) (typed : state.typed = target.isTyped)
    (bounded : Bounded allowed (equals :: rest)) :
    Refused allowed (walk state passed 0 (equals :: rest)) ∨
      ∃ value follow later, rest = RightHandSide.leaves value ++ follow :: later ∧
        value.WellKinded NumberedToken.kind ∧ Readable value.leaves ∧
        endsRightHandSide follow.kind = true := by
  have goesOn : equals.kind ≠ .endOfInput := by simp [isEquals]
  have boundedRest := bounded.tail goesOn
  have stepped : step state passed equals rest = readAssignment state equals rest := by
    simp only [step, isEquals]
  rcases rightHandSide_or_refused structural boundedRest with
    refused | ⟨run, terminator, later, split, read, ends, inside⟩
  · left
    refine refused_step goesOn ?_
    rw [stepped, readAssignment, unassigned, if_neg (by simp)]
    exact refused.bind _
  cases run with
  | nil =>
    left
    refine refused_step goesOn ?_
    rw [stepped, readAssignment, unassigned, if_neg (by simp), read]
    exact refused_refuse structural rfl equals
  | cons first more =>
    cases arithmetic : (first :: more).any (isArithmetic ·.kind) with
    | true =>
      have items := @items_or_refused allowed structural none (first :: more)
        fun token member => boundedRest.numbers token (by rw [split]; simp at member ⊢; tauto)
      rcases items with refused | ⟨items, itemsRead⟩
      · left
        refine refused_step goesOn ?_
        rw [stepped, readAssignment, unassigned, if_neg (by simp), read, Result.ok_bind]
        simp only [arithmetic, if_true]
        exact (refused.bind _).bind _
      · exact .inr ⟨.expression first more, terminator, later, split,
          ⟨kinds_of_items itemsRead, arithmetic⟩, readable_of_items itemsRead, ends⟩
    | false =>
      have assignment : step state passed equals rest = .ok (state.assign target equals, 0) := by
        rw [stepped, readAssignment, unassigned, if_neg (by simp), read, Result.ok_bind]
        simp only [arithmetic, Bool.false_eq_true, if_false]
        rw [assign_inheritType named typed]
        rfl
      have fresh : Fresh (state.assign target equals) (equals :: passed) :=
        ⟨rfl, by simp [isEquals, opensSegment], by simp [State.assign, State.modifiable]⟩
      rcases operand_or_refused structural fresh rfl (by simp [State.assign]) boundedRest with
        refused | ⟨operand, follow, final, again, operandSound, followEnds⟩
      · left
        rw [walk_step goesOn assignment]
        exact refused
      · cases operand with
        | none =>
          have firstOpen := inside first (by simp)
          rw [split] at again
          simp only [Option.map_none, Option.getD_none, List.nil_append, List.cons_append,
            List.cons.injEq] at again
          rw [again.1, followEnds] at firstOpen
          cases firstOpen
        | some operand =>
          obtain ⟨kinds, readable⟩ := operandSound operand rfl
          have operandInside : ∀ token ∈ operand.leaves, endsSegment token.kind = false :=
            fun token member => not_endsSegment_of_inExpression (kinds_of_operand kinds token member).1
          rw [split] at again
          obtain ⟨same, sameFollow, sameLater⟩ := cut_unique inside operandInside
            (endsSegment_of_endsRightHandSide ends) followEnds again
          exact .inr ⟨.single operand, terminator, later,
            by rw [split, same]; rfl, kinds, readable, ends⟩

theorem binding_or_refused {target : Segment NumberedToken} {equals : NumberedToken}
    (isEquals : equals.kind = .equals) (unassigned : state.assigned = false)
    (named : state.named = target.isName) (typed : state.typed = target.isTyped)
    (bounded : Bounded allowed (equals :: rest)) :
    Refused allowed (walk state passed 0 (equals :: rest)) ∨
      ∃ binding follow later, equals :: rest = Binding.leaves binding ++ follow :: later ∧
        binding.WellKinded NumberedToken.kind ∧ Readable binding.leaves ∧
        endsLine follow.kind = true := by
  rcases value_or_refused structural isEquals unassigned named typed bounded with
    refused | ⟨value, follow, later, rfl, kinds, readable, ends⟩
  · exact .inl refused
  have walked := @walk_value state passed follow later value target equals isEquals kinds readable
    unassigned named typed ends
  have boundedFollow := (bounded.tail (by simp [isEquals])).after
    (goesOn_of_inLine (RightHandSide.inLine kinds))
  have outcome := @inspected_or_refused allowed structural
    { state.assign target equals with
      output := (valueTokens state.frames value).reverse ++ (state.assign target equals).output }
    (value.leaves.reverse ++ equals :: passed) later follow rfl ends boundedFollow
  rw [walked]
  rcases outcome with
    refused | ⟨inspected, next, final, split, inspectedKinds, inspectedReadable, nextEnds⟩
  · exact .inl refused
  · refine .inr ⟨⟨equals, value, inspected⟩, next, final, ?_, ⟨isEquals, kinds, inspectedKinds⟩,
      (Readable.binding isEquals).mpr ⟨readable, inspectedReadable⟩, nextEnds⟩
    rw [split]
    simp [Binding.leaves]

/-! ## Statements and headers -/

theorem statement_or_refused {tokens : List NumberedToken} (atStart : AtLineStart state passed)
    (noHeader : headerLength? tokens = .ok none) (bounded : Bounded allowed tokens) :
    Refused allowed (walk state passed 0 tokens) ∨
      ∃ statement follow later, tokens = Statement.leaves statement ++ follow :: later ∧
        Sound statement ∧ endsLine follow.kind = true := by
  have noGroup : ∀ last ∈ state.output.head?, last.role ≠ .group := by
    intro last member isGroup
    have boundary := atStart.written last member
    rw [isGroup] at boundary
    cases boundary
  rcases segment_or_refused structural atStart.fresh atStart.unassigned atStart.untyped noGroup
    (fun _ _ => noHeader) bounded with
    refused | ⟨first, follow, later, rfl, firstKinds, firstCompatible, firstReadable, ends⟩
  · exact .inl refused
  have walkedFirst := @walk_segment state passed follow later first firstKinds firstCompatible
    firstReadable atStart.fresh atStart.unassigned atStart.unnamed atStart.untyped ends
  have boundedFirst := bounded.after (goesOn_of_inLine (Segment.inLine firstKinds))
  have outcome := @more_or_refused allowed structural
    { state with
      output := (segmentTokens state.frames first).reverse ++ state.output
      named := first.isName
      typed := first.isTyped }
    (first.leaves.reverse ++ passed) later follow atStart.unassigned ends boundedFirst
  rcases outcome with
    refused | ⟨more, next, final, split, moreKinds, moreCompatible, moreReadable, nextEnds, done⟩
  · left
    rw [walkedFirst]
    exact refused
  have readable : Readable (first.leaves ++ segmentLeaves more) :=
    Readable.append.mpr ⟨firstReadable, moreReadable⟩
  have walked := @walk_segments state passed next final first more firstKinds moreKinds
    firstCompatible moreCompatible readable atStart nextEnds
  rw [split] at boundedFirst ⊢
  by_cases isEquals : next.kind = .equals
  · have boundedNext := boundedFirst.after (goesOn_of_inLine (segmentLeaves_inLine moreKinds))
    have outcome := @binding_or_refused allowed structural
      { state with
        output := (segmentTokens state.frames first ++ moreTokens state.frames more).reverse ++
          state.output
        named := (lastSegment first more).isName
        typed := (lastSegment first more).isTyped }
      ((first.leaves ++ segmentLeaves more).reverse ++ passed) final (lastSegment first more) next
      isEquals atStart.unassigned rfl rfl boundedNext
    rcases outcome with refused | ⟨binding, last, ending, again, kinds, bindingReadable, lastEnds⟩
    · left
      rw [← List.append_assoc, walked]
      exact refused
    · refine .inr ⟨⟨first, more, some binding⟩, last, ending, ?_, ⟨⟨firstKinds, moreKinds, ?_⟩,
        ⟨firstCompatible, moreCompatible⟩, ?_⟩, lastEnds⟩
      · rw [again]
        simp [Statement.leaves]
      · rintro _ ⟨⟩
        exact kinds
      · exact Readable.append.mpr ⟨readable, bindingReadable⟩
  · refine .inr ⟨⟨first, more, none⟩, next, final, by simp [Statement.leaves],
      ⟨⟨firstKinds, moreKinds, by simp⟩, ⟨firstCompatible, moreCompatible⟩, ?_⟩,
      endsLine_of_endsRightHandSide (endsRightHandSide_of_endsSegment nextEnds isEquals) done⟩
    simpa [Statement.leaves] using readable

omit structural in
/-- The look ahead for a header finds one exactly if there is one. -/
theorem headerLength?_cases {tokens : List NumberedToken} (bounded : Bounded allowed tokens) :
    headerLength? tokens = .ok none ∨
      ∃ header brace later, tokens = Header.leaves header ++ brace :: later ∧
        header.WellKinded NumberedToken.kind ∧ brace.kind = .leftBrace := by
  obtain ⟨name, rest, rfl⟩ := bounded.ne_nil
  -- a header is looked for as long as names and arrows alternate
  by_cases nameKind : name.kind = .identifier
  swap
  · left
    rcases rest with _ | ⟨arrow, _ | ⟨after, rest⟩⟩ <;> simp [headerLength?, nameKind]
  obtain ⟨arrow, rest, rfl⟩ := (bounded.tail (by simp [nameKind])).ne_nil
  by_cases arrowKind : arrow.kind = .arrow
  swap
  · left
    exact headerLength?_unlinked (by simp [arrowKind]) rest
  have boundedAfter := (bounded.tail (by simp [nameKind])).tail (by simp [arrowKind])
  obtain ⟨after, rest, rfl⟩ := boundedAfter.ne_nil
  by_cases isBrace : after.kind = .leftBrace
  · exact .inr ⟨⟨⟨[], name⟩, arrow, none⟩, after, rest, rfl, ⟨⟨by simp, nameKind⟩, arrowKind, by simp⟩,
      isBrace⟩
  by_cases isColon : after.kind = .colon
  · have boundedType := boundedAfter.tail (by simp [isColon])
    obtain ⟨type, rest, rfl⟩ := boundedType.ne_nil
    by_cases isType : type.kind = .typeName
    swap
    · left
      simp [headerLength?, nameKind, arrowKind, isColon, isType]
    obtain ⟨brace, rest, rfl⟩ := (boundedType.tail (by simp [isType])).ne_nil
    by_cases isBrace : brace.kind = .leftBrace
    · refine .inr ⟨⟨⟨[], name⟩, arrow, some (after, type)⟩, brace, rest, rfl,
        ⟨⟨by simp, nameKind⟩, arrowKind, ?_⟩, isBrace⟩
      rintro _ ⟨⟩
      exact ⟨isColon, isType⟩
    · left
      simp [headerLength?, nameKind, arrowKind, isColon, isType, isBrace]
  by_cases isName : after.kind = .identifier
  · rcases headerLength?_cases boundedAfter with none_ | ⟨header, brace, later, split, kinds, opens⟩
    · left
      rw [headerLength?_further ⟨nameKind, arrowKind⟩ isName, none_]
      rfl
    · right
      obtain ⟨path, closing, memberType⟩ := header
      refine ⟨⟨⟨(name, arrow) :: path.outer, path.last⟩, closing, memberType⟩, brace, later, ?_,
        ⟨Path.wellKinded_cons.mpr ⟨⟨nameKind, arrowKind⟩, kinds.1⟩, kinds.2⟩, opens⟩
      rw [split]
      rfl
  · exact .inl (headerLength?_other isBrace isColon isName rest)
termination_by tokens.length

/-! ## Programs -/

/-- The walk from the start of a line fails, or a program stands in front of it. -/
theorem reads_or_refused {state : State} {passed tokens : List NumberedToken}
    {blocks : List Block} (atStart : AtLineStart state passed)
    (framed : state.frames = framesOfBlocks blocks) (bounded : Bounded allowed tokens) :
    Refused allowed (walk state passed 0 tokens) ∨ ∃ written, Reads blocks tokens written := by
  rcases headerLength?_cases bounded with
    noHeader | ⟨header, brace, later, rfl, headerKinds, isBrace⟩
  · rcases statement_or_refused structural atStart noHeader bounded with
      refused | ⟨statement, follow, later, rfl, sound, ends⟩
    · exact .inl refused
    obtain ⟨assigned, named, typed, walked⟩ :=
      @walk_statement state passed follow later statement sound atStart ends
    have boundedFollow := bounded.after (goesOn_of_inLine (Statement.inLine sound.kinds))
    have shorter : later.length < (statement.leaves ++ follow :: later).length := by
      simp
      omega
    rw [walked]
    by_cases isEnd : follow.kind = .endOfInput
    · cases blocks with
      | nil => exact .inr ⟨_, .finish sound isEnd⟩
      | cons block blocks =>
        left
        rw [walk, if_pos isEnd, finish, framed]
        exact refused_refuse structural rfl follow
    have boundedLater := boundedFollow.tail isEnd
    by_cases isNewline : follow.kind = .newline
    · have nextStart (output : List AnnotatedToken) (passed : List NumberedToken) :
          AtLineStart ⟨follow.inRole .newline :: output, state.frames, false, false, false⟩
            (follow :: passed) := atLineStart_written rfl (by rw [isNewline]; rfl)
      rw [walk_step isEnd (step_newline isNewline)]
      rcases reads_or_refused (nextStart _ _) framed boundedLater with refused | ⟨written, reads⟩
      · exact .inl refused
      · exact .inr ⟨_, .newline sound isNewline reads⟩
    · have isBrace : follow.kind = .rightBrace := by
        rcases endsLine_iff.mp ends with kind | kind | kind
        · exact absurd kind isNewline
        · exact kind
        · exact absurd kind isEnd
      cases blocks with
      | nil =>
        left
        refine refused_step isEnd ?_
        simp only [step, isBrace, closeBlock, framed, framesOfBlocks, List.flatMap_nil]
        exact (refused_refuse structural rfl follow).bind _
      | cons block blocks =>
        have nextStart (output : List AnnotatedToken) (passed : List NumberedToken) :
            AtLineStart
              ⟨follow.inRole .blockClose :: output, framesOfBlocks blocks, false, false, false⟩
              (follow :: passed) := atLineStart_written rfl (by rw [isBrace]; rfl)
        rw [walk_step isEnd (step_close isBrace framed)]
        rcases reads_or_refused (nextStart _ _) rfl boundedLater with refused | ⟨written, reads⟩
        · exact .inl refused
        · exact .inr ⟨_, .close sound isBrace reads⟩
  · have boundedBrace := bounded.after (goesOn_of_inLine (Header.inLine headerKinds))
    have goesOn : brace.kind ≠ .endOfInput := by simp [isBrace]
    have shorter : later.length < (header.leaves ++ brace :: later).length := by
      simp
      omega
    have nextStart (output : List AnnotatedToken) (passed : List NumberedToken) :
        AtLineStart ⟨blockToken (blockOf header) brace :: output,
          framesOfBlocks (blockOf header :: blocks), false, false, false⟩ (brace :: passed) :=
      atLineStart_written rfl (by rw [isBrace]; rfl)
    rw [walk_header headerKinds isBrace atStart,
      walk_step goesOn (step_open headerKinds isBrace atStart framed)]
    rcases reads_or_refused (nextStart _ _) rfl (boundedBrace.tail goesOn) with
      refused | ⟨written, reads⟩
    · exact .inl refused
    · exact .inr ⟨_, .open_ headerKinds isBrace reads⟩
termination_by tokens.length

end ParaLang.Annotations
