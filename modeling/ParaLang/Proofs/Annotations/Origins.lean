import ParaLang.Proofs.Annotations.Lines

/-! # Where annotated tokens come from

Each token that annotation writes is one of a few: a raw token in a role, a name with modifiers, a
type, a literal with its value, an expression with its items, or a segment of the path of the open
blocks.  What holds of these holds of every annotated program. -/

namespace ParaLang.Annotations

open ParaLang.Grammar

/-! ## Statements -/

/-- The roles in which a raw token is written as it stands. -/
def plays : TokenKind → Role → Bool
  | .identifier, .group | .identifier, .lookup | .arrow, .arrow | .equals, .assign
  | .question, .inspect => true
  | _, _ => false

/-- A token that is written for a statement with the given leaves inside some open blocks. -/
inductive Origin (frames : List Frame) (leaves : List NumberedToken) : AnnotatedToken → Prop where
  | plain {leaf : NumberedToken} {role : Role} (among : leaf ∈ leaves)
      (fits : plays leaf.kind role = true) : Origin frames leaves (leaf.inRole role)
  | name {leaf : NumberedToken} (among : leaf ∈ leaves) (isName : leaf.kind = .identifier)
      (modifiers : List NumberedToken) :
      Origin frames leaves (withModifiers modifiers (leaf.inRole .identifier))
  | type {colon type : NumberedToken} (colonAmong : colon ∈ leaves) (typeAmong : type ∈ leaves)
      (isType : type.kind = .typeName) : Origin frames leaves (typeToken colon type.literal)
  | inherited {equals : NumberedToken} {type : String} (among : equals ∈ leaves)
      (given : frames.findSome? Frame.memberType = some type) :
      Origin frames leaves { typeToken equals type with synthetic := true }
  | literal {leaf : NumberedToken} {value : Value} (among : leaf ∈ leaves)
      (isLiteral : leaf.kind.isLiteral = true) (read : literalValue leaf = .ok value) :
      Origin frames leaves (literalToken leaf value)
  | expression {first : NumberedToken} {more : List NumberedToken} {items : List AnnotatedToken}
      (among : first :: more ⊆ leaves) (read : expressionItems none (first :: more) = .ok items) :
      Origin frames leaves (extractedToken first more items)
  | block {leaf : NumberedToken} {token : AnnotatedToken} (among : leaf ∈ leaves)
      (inPath : token ∈ spliced frames leaf) : Origin frames leaves token

section Statements

variable {frames : List Frame} {leaves : List NumberedToken}

theorem first_mem_leaves {α : Type} (path : Path α) : path.first ∈ path.leaves := by
  obtain ⟨outer, last⟩ := path
  cases outer <;> simp [Path.first, Path.leaves]

theorem last_mem_leaves {α : Type} (path : Path α) : path.last ∈ path.leaves := by
  simp [Path.leaves]

theorem origin_path {path : Path NumberedToken} (kinds : path.WellKinded NumberedToken.kind)
    (among : path.leaves ⊆ leaves) {last : AnnotatedToken} (origin : Origin frames leaves last) :
    ∀ token ∈ pathTokens frames path last, Origin frames leaves token := by
  simp only [pathTokens, List.forall_mem_append, List.forall_mem_singleton]
  refine ⟨⟨fun token member => .block (among (first_mem_leaves path)) member,
    fun token member => ?_⟩, origin⟩
  obtain ⟨link, inside, member⟩ := List.mem_flatMap.mp member
  obtain ⟨isName, isArrow⟩ := kinds.1 link inside
  have inLeaves {leaf : NumberedToken} (member : leaf ∈ [link.1, link.2]) : leaf ∈ leaves :=
    among (List.mem_append_left _ (List.mem_flatMap.mpr ⟨link, inside, member⟩))
  simp only [List.mem_cons, List.not_mem_nil, or_false] at member
  rcases member with rfl | rfl
  · exact .plain (inLeaves (by simp)) (by rw [isName]; rfl)
  · exact .plain (inLeaves (by simp)) (by rw [isArrow]; rfl)

theorem origin_literal {token : NumberedToken} (among : token ∈ leaves)
    (isLiteral : token.kind.isLiteral = true) (readable : Readable [token]) :
    Origin frames leaves (readLiteralToken token) := by
  obtain ⟨value, read⟩ := readable token (by simp) isLiteral
  rw [readLiteralToken, read]
  exact .literal among isLiteral read

theorem origin_segment {segment : Segment NumberedToken}
    (kinds : segment.WellKinded NumberedToken.kind) (readable : Readable segment.leaves)
    (among : segment.leaves ⊆ leaves) :
    ∀ token ∈ segmentTokens frames segment, Origin frames leaves token := by
  cases segment with
  | empty => simp [segmentTokens]
  | literal token =>
    simpa [segmentTokens] using origin_literal (among (by simp [Segment.leaves])) kinds readable
  | name definition =>
    obtain ⟨path, modifiers, clause⟩ := definition
    obtain ⟨pathKinds, -, clauseKinds⟩ := kinds
    have pathAmong : path.leaves ⊆ leaves := fun leaf member =>
      among (List.mem_append_left _ (List.mem_append_left _ member))
    simp only [segmentTokens, definitionTokens, List.forall_mem_append]
    refine ⟨origin_path pathKinds pathAmong
      (.name (pathAmong (last_mem_leaves path)) pathKinds.2 _), fun token member => ?_⟩
    cases clause with
    | none => simp [clauseTokens] at member
    | some clause =>
      obtain rfl : token = typeToken clause.colon clause.type.literal := by
        simpa [clauseTokens] using member
      have clauseAmong : clause.leaves ⊆ leaves := fun leaf member =>
        among (List.mem_append_right _ member)
      exact .type (clauseAmong (by simp [TypeClause.leaves]))
        (clauseAmong (by simp [TypeClause.leaves])) (clauseKinds clause rfl).2.2.1

theorem origin_operand {operand : Operand NumberedToken}
    (kinds : operand.WellKinded NumberedToken.kind) (readable : Readable operand.leaves)
    (among : operand.leaves ⊆ leaves) :
    ∀ token ∈ operandTokens frames operand, Origin frames leaves token := by
  cases operand with
  | literal token =>
    simpa [operandTokens] using origin_literal (among (by simp [Operand.leaves])) kinds readable
  | reference path =>
    have isName : path.last.kind = .identifier := kinds.2
    exact origin_path kinds among
      (.plain (among (last_mem_leaves path)) (by rw [isName]; rfl))

theorem origin_value {value : RightHandSide NumberedToken}
    (kinds : value.WellKinded NumberedToken.kind) (readable : Readable value.leaves)
    (among : value.leaves ⊆ leaves) :
    ∀ token ∈ valueTokens frames value, Origin frames leaves token := by
  cases value with
  | single operand => exact origin_operand kinds readable among
  | expression first more =>
    obtain ⟨items, read⟩ := expressionItems_readable none kinds.1 readable
    simp only [valueTokens, expressionToken_of_items read, Except.toOption, Option.getD_some,
      List.forall_mem_singleton]
    exact .expression among read

theorem origin_inspected {inspected : List (NumberedToken × Option (Operand NumberedToken))}
    (kinds : ∀ link ∈ inspected, link.1.kind = .question ∧
      ∀ operand ∈ link.2, operand.WellKinded NumberedToken.kind)
    (readable : Readable (inspectedLeaves inspected)) (among : inspectedLeaves inspected ⊆ leaves) :
    ∀ token ∈ inspectedTokens frames inspected, Origin frames leaves token := by
  intro token member
  obtain ⟨⟨question, operand⟩, inside, member⟩ := List.mem_flatMap.mp member
  obtain ⟨isQuestion, operandKinds⟩ := kinds _ inside
  have inLeaves {leaf : NumberedToken}
      (member : leaf ∈ question :: (operand.map Operand.leaves).getD []) :
      leaf ∈ inspectedLeaves inspected := List.mem_flatMap.mpr ⟨_, inside, member⟩
  rcases List.mem_cons.mp member with rfl | member
  · simp only at isQuestion
    exact .plain (among (inLeaves (by simp))) (by rw [isQuestion]; rfl)
  · cases operand with
    | none => simp at member
    | some operand =>
      exact origin_operand (operandKinds operand rfl)
        (fun leaf member => readable leaf (inLeaves (List.mem_cons_of_mem _ member)))
        (fun leaf member => among (inLeaves (List.mem_cons_of_mem _ member))) token member

theorem origin_more {more : List (NumberedToken × Segment NumberedToken)}
    (kinds : ∀ link ∈ more, link.1.kind = .question ∧ link.2.WellKinded NumberedToken.kind)
    (readable : Readable (segmentLeaves more)) (among : segmentLeaves more ⊆ leaves) :
    ∀ token ∈ moreTokens frames more, Origin frames leaves token := by
  intro token member
  obtain ⟨⟨question, segment⟩, inside, member⟩ := List.mem_flatMap.mp member
  obtain ⟨isQuestion, segmentKinds⟩ := kinds _ inside
  have inLeaves {leaf : NumberedToken} (member : leaf ∈ question :: segment.leaves) :
      leaf ∈ segmentLeaves more := List.mem_flatMap.mpr ⟨_, inside, member⟩
  rcases List.mem_cons.mp member with rfl | member
  · simp only at isQuestion
    exact .plain (among (inLeaves (by simp))) (by rw [isQuestion]; rfl)
  · exact origin_segment segmentKinds
      (fun leaf member => readable leaf (inLeaves (List.mem_cons_of_mem _ member)))
      (fun leaf member => among (inLeaves (List.mem_cons_of_mem _ member))) token member

theorem origin_inherited {target : Segment NumberedToken} {equals : NumberedToken}
    (among : equals ∈ leaves) :
    ∀ token ∈ inheritedTokens frames target equals, Origin frames leaves token := by
  intro token member
  unfold inheritedTokens at member
  split at member
  · obtain ⟨type, given, rfl⟩ := List.mem_map.mp member
    exact .inherited among (Option.mem_toList.mp given)
  · cases member

/-- Each token that is written for a statement comes from its leaves. -/
theorem origin_statement {statement : Statement NumberedToken} (sound : Sound statement) :
    ∀ token ∈ statementTokens frames statement, Origin frames statement.leaves token := by
  obtain ⟨first, more, binding⟩ := statement
  obtain ⟨⟨firstKinds, moreKinds, bindingKinds⟩, -, readable⟩ := sound
  simp only [Statement.leaves, Readable.append] at readable ⊢
  obtain ⟨⟨firstReadable, moreReadable⟩, bindingReadable⟩ := readable
  simp only [statementTokens, List.forall_mem_append]
  refine ⟨⟨origin_segment firstKinds firstReadable ?_, origin_more moreKinds moreReadable ?_⟩, ?_⟩
  · exact fun leaf member => by simp [member]
  · exact fun leaf member => by simp [member]
  · cases binding with
    | none => simp
    | some binding =>
      obtain ⟨equals, value, inspected⟩ := binding
      obtain ⟨isEquals, valueKinds, inspectedKinds⟩ := bindingKinds _ rfl
      simp only at isEquals
      simp only [Option.map_some, Option.getD_some, Binding.leaves] at bindingReadable ⊢
      have inBinding {part : List NumberedToken}
          (inside : part ⊆ equals :: (value.leaves ++ inspectedLeaves inspected)) :
          part ⊆ first.leaves ++ segmentLeaves more ++
            equals :: (value.leaves ++ inspectedLeaves inspected) :=
        List.subset_append_of_subset_right _ inside
      have equalsAmong : equals ∈ first.leaves ++ segmentLeaves more ++
          equals :: (value.leaves ++ inspectedLeaves inspected) := by simp
      simp only [bindingTokens, List.forall_mem_append, List.forall_mem_cons]
      refine ⟨origin_inherited equalsAmong, .plain equalsAmong (by rw [isEquals]; rfl),
        origin_value valueKinds ?_ (inBinding ?_), origin_inspected inspectedKinds ?_ (inBinding ?_)⟩
      · exact fun leaf member => bindingReadable leaf (by simp [member])
      · exact fun leaf member => by simp [member]
      · exact fun leaf member => bindingReadable leaf (by simp [member])
      · exact fun leaf member => by simp [member]

/-- What is written for a statement stays inside of it. -/
theorem Origin.inner {token : AnnotatedToken} (origin : Origin frames leaves token) :
    token.role.isBoundary = false := by
  cases origin with
  | @plain leaf role _ fits =>
    cases role <;> first | rfl | (cases kind : leaf.kind <;> simp [plays, kind] at fits)
  | name =>
    rw [role_withModifiers]
    rfl
  | block _ inPath =>
    obtain ⟨frame, -, member⟩ := List.mem_flatMap.mp inPath
    simp only [List.mem_cons, List.not_mem_nil, or_false] at member
    rcases member with rfl | rfl <;> rfl
  | type | inherited | literal | expression => rfl

/-- The roles in which only raw tokens are written as they stand. -/
def isRaw : Role → Bool
  | .lookup | .assign | .inspect => true
  | _ => false

/-- Such a role is not there if the tokens that play it are not. -/
theorem role_ne_of_absent {token : AnnotatedToken} (origin : Origin frames leaves token)
    {kind : TokenKind} {role : Role} (raw : isRaw role = true)
    (only : ∀ other, plays other role = true → other = kind)
    (absent : ∀ leaf ∈ leaves, leaf.kind ≠ kind) : token.role ≠ role := by
  cases origin with
  | plain among fits =>
    rintro rfl
    exact absent _ among (only _ fits)
  | name =>
    rintro rfl
    simp [isRaw] at raw
  | block among inPath =>
    obtain ⟨frame, -, member⟩ := List.mem_flatMap.mp inPath
    simp only [List.mem_cons, List.not_mem_nil, or_false] at member
    rcases member with rfl | rfl <;> rintro rfl <;> cases raw
  | type | inherited | literal | expression =>
    rintro rfl
    cases raw

/-- Only an `=` is written as an assignment. -/
theorem role_ne_assign {token : AnnotatedToken} (origin : Origin frames leaves token)
    (noEquals : ∀ leaf ∈ leaves, leaf.kind ≠ .equals) : token.role ≠ .assign :=
  role_ne_of_absent origin rfl (fun other fits => by cases other <;> first | rfl | cases fits)
    noEquals

/-- Only a question mark is written as an inspection. -/
theorem role_ne_inspect {token : AnnotatedToken} (origin : Origin frames leaves token)
    (noQuestion : ∀ leaf ∈ leaves, leaf.kind ≠ .question) : token.role ≠ .inspect :=
  role_ne_of_absent origin rfl (fun other fits => by cases other <;> first | rfl | cases fits)
    noQuestion

end Statements

end ParaLang.Annotations
