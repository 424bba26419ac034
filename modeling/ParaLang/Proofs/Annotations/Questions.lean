import ParaLang.Proofs.Annotations.Qualification
import ParaLang.Proofs.Annotations.Seams

/-! # Places of question marks

Annotation writes an inspection for each question mark up to the end of the input, in its place.
These places are a matter of the kinds and the lines of the tokens. -/

namespace ParaLang.Annotations

open ParaLang.Grammar

/-- The question marks among some tokens. -/
def questions (tokens : List NumberedToken) : List NumberedToken :=
  tokens.filter (·.kind == .question)

/-- The inspections among some annotated tokens. -/
def inspects (written : List AnnotatedToken) : List AnnotatedToken :=
  written.filter (·.role == .inspect)

section Append

variable {tokens later : List NumberedToken} {written rest : List AnnotatedToken}

@[simp] theorem questions_append :
    questions (tokens ++ later) = questions tokens ++ questions later :=
  List.filter_append ..

@[simp] theorem inspects_append :
    inspects (written ++ rest) = inspects written ++ inspects rest :=
  List.filter_append ..

theorem questions_eq_nil (absent : ∀ leaf ∈ tokens, leaf.kind ≠ .question) :
    questions tokens = [] := by
  simpa [questions] using absent

theorem inspects_eq_nil (absent : ∀ token ∈ written, token.role ≠ .inspect) :
    inspects written = [] := by
  simpa [inspects] using absent

end Append

/-! ## Statements -/

section Statements

variable {frames : List Frame}

/-- For the question marks of some tokens inspections are written in their places. -/
def Inspects (written : List AnnotatedToken) (tokens : List NumberedToken) : Prop :=
  inspects written = (questions tokens).map (·.inRole .inspect)

theorem Inspects.append {written rest : List AnnotatedToken} {tokens later : List NumberedToken}
    (first : Inspects written tokens) (second : Inspects rest later) :
    Inspects (written ++ rest) (tokens ++ later) := by
  rw [Inspects, inspects_append, questions_append, List.map_append, first, second]

theorem Inspects.question {question : NumberedToken} (isQuestion : question.kind = .question)
    {written : List AnnotatedToken} {tokens : List NumberedToken}
    (later : Inspects written tokens) :
    Inspects (question.inRole .inspect :: written) (question :: tokens) := by
  have single : Inspects [question.inRole .inspect] [question] := by
    simp [Inspects, inspects, questions, isQuestion]
  exact single.append later

/-- Tokens that are no question marks lead to no inspections. -/
theorem inspects_nothing {written : List AnnotatedToken} {tokens : List NumberedToken}
    (origins : ∀ token ∈ written, Origin frames tokens token)
    (absent : ∀ leaf ∈ tokens, leaf.kind ≠ .question) : Inspects written tokens := by
  rw [Inspects, questions_eq_nil absent,
    inspects_eq_nil fun token member => role_ne_inspect (origins token member) absent]
  rfl

theorem inspects_segment {segment : Segment NumberedToken}
    (kinds : segment.WellKinded NumberedToken.kind) (readable : Readable segment.leaves) :
    Inspects (segmentTokens frames segment) segment.leaves := by
  refine inspects_nothing (origin_segment kinds readable (List.Subset.refl _)) fun leaf member => ?_
  have plainKinds : (segment.map NumberedToken.token).WellKinded Token.kind :=
    (Segment.wellKinded_map segment).mpr kinds
  have image : leaf.token ∈ (segment.map NumberedToken.token).leaves := by
    rw [Segment.leaves_map]
    exact List.mem_map_of_mem member
  exact (segment_plain plainKinds leaf.token image).2

theorem inspects_operand {operand : Operand NumberedToken}
    (kinds : operand.WellKinded NumberedToken.kind) (readable : Readable operand.leaves) :
    Inspects (operandTokens frames operand) operand.leaves :=
  inspects_nothing (origin_operand kinds readable (List.Subset.refl _)) fun leaf member =>
    kind_ne_of_test (kinds_of_operand kinds leaf member).1 rfl

theorem inspects_value {value : RightHandSide NumberedToken}
    (kinds : value.WellKinded NumberedToken.kind) (readable : Readable value.leaves) :
    Inspects (valueTokens frames value) value.leaves :=
  inspects_nothing (origin_value kinds readable (List.Subset.refl _)) fun leaf member =>
    kind_ne_of_test (kinds_of_value kinds leaf member) rfl

theorem inspects_more {more : List (NumberedToken × Segment NumberedToken)}
    (kinds : ∀ link ∈ more, link.1.kind = .question ∧ link.2.WellKinded NumberedToken.kind)
    (readable : Readable (segmentLeaves more)) :
    Inspects (moreTokens frames more) (segmentLeaves more) := by
  induction more with
  | nil => rfl
  | cons link more inductionHypothesis =>
    obtain ⟨⟨isQuestion, segmentKinds⟩, moreKinds⟩ := List.forall_mem_cons.mp kinds
    obtain ⟨ofSegment, ofMore⟩ := (Readable.segmentLeaves_cons isQuestion).mp readable
    exact (Inspects.question isQuestion (inspects_segment segmentKinds ofSegment)).append
      (inductionHypothesis moreKinds ofMore)

theorem inspects_inspected {inspected : List (NumberedToken × Option (Operand NumberedToken))}
    (kinds : ∀ link ∈ inspected, link.1.kind = .question ∧
      ∀ operand ∈ link.2, operand.WellKinded NumberedToken.kind)
    (readable : Readable (inspectedLeaves inspected)) :
    Inspects (inspectedTokens frames inspected) (inspectedLeaves inspected) := by
  induction inspected with
  | nil => rfl
  | cons link inspected inductionHypothesis =>
    obtain ⟨⟨isQuestion, operandKinds⟩, laterKinds⟩ := List.forall_mem_cons.mp kinds
    obtain ⟨ofOperand, ofLater⟩ := (Readable.inspectedLeaves_cons isQuestion).mp readable
    have later := inductionHypothesis laterKinds ofLater
    obtain ⟨question, operand⟩ := link
    cases operand with
    | none => exact Inspects.question isQuestion later
    | some operand =>
      exact (Inspects.question isQuestion (inspects_operand (operandKinds operand rfl)
        (ofOperand operand rfl))).append later

theorem inspects_binding {binding : Binding NumberedToken} (target : Segment NumberedToken)
    (kinds : binding.WellKinded NumberedToken.kind) (readable : Readable binding.leaves) :
    Inspects (bindingTokens frames target binding) binding.leaves := by
  obtain ⟨isEquals, valueKinds, inspectedKinds⟩ := kinds
  obtain ⟨ofValue, ofInspected⟩ := (Readable.binding isEquals).mp readable
  have equals : Inspects (inheritedTokens frames target binding.equals ++
      [binding.equals.inRole .assign]) [binding.equals] := by
    have origins : ∀ token ∈ inheritedTokens frames target binding.equals ++
        [binding.equals.inRole .assign], Origin frames [binding.equals] token :=
      List.forall_mem_append.mpr ⟨origin_inherited (by simp),
        List.forall_mem_singleton.mpr (.plain (by simp) (by rw [isEquals]; rfl))⟩
    exact inspects_nothing origins (by simp [isEquals])
  have value : Inspects (valueTokens frames binding.value) binding.value.leaves :=
    inspects_value valueKinds ofValue
  have inspected : Inspects (inspectedTokens frames binding.inspected)
      (inspectedLeaves binding.inspected) := inspects_inspected inspectedKinds ofInspected
  simpa [bindingTokens, Binding.leaves] using equals.append (value.append inspected)

theorem inspects_statement {statement : Statement NumberedToken} (sound : Sound statement) :
    Inspects (statementTokens frames statement) statement.leaves := by
  obtain ⟨first, more, binding⟩ := statement
  obtain ⟨⟨firstKinds, moreKinds, bindingKinds⟩, -, readable⟩ := sound
  obtain ⟨ofSegments, ofBinding⟩ := Readable.append.mp readable
  obtain ⟨ofFirst, ofMore⟩ := Readable.append.mp ofSegments
  refine ((inspects_segment firstKinds ofFirst).append (inspects_more moreKinds ofMore)).append ?_
  cases binding with
  | none => rfl
  | some binding => exact inspects_binding _ (bindingKinds binding rfl) ofBinding

end Statements

/-! ## Programs -/

/-- The tokens before the end of the input. -/
def beforeEnd (tokens : List NumberedToken) : List NumberedToken :=
  tokens.takeWhile (·.kind != .endOfInput)

theorem beforeEnd_append {tokens : List NumberedToken}
    (only : ∀ token ∈ tokens, token.kind ≠ .endOfInput) (later : List NumberedToken) :
    beforeEnd (tokens ++ later) = tokens ++ beforeEnd later :=
  List.takeWhile_append_of_pos (by simpa using only)

theorem beforeEnd_line {run : List NumberedToken} (inside : ∀ token ∈ run, inLine token.kind = true)
    (later : List NumberedToken) : beforeEnd (run ++ later) = run ++ beforeEnd later := by
  exact beforeEnd_append (fun token member => kind_ne_of_test (inside token member) rfl) later

theorem Inspects.boundary {place : NumberedToken} {ending : AnnotatedToken}
    {written : List AnnotatedToken} {tokens : List NumberedToken}
    (later : Inspects written (beforeEnd tokens)) (boundary : ending.role.isBoundary = true)
    (noQuestion : place.kind ≠ .question) (goesOn : place.kind ≠ .endOfInput) :
    Inspects (ending :: written) (beforeEnd (place :: tokens)) := by
  have noInspect : ending.role ≠ .inspect := by
    intro isInspect
    rw [isInspect] at boundary
    cases boundary
  simpa [Inspects, beforeEnd, goesOn, inspects, questions, noQuestion, noInspect] using later

theorem header_noQuestion {header : Header NumberedToken}
    (kinds : header.WellKinded NumberedToken.kind) :
    ∀ leaf ∈ header.leaves, leaf.kind ≠ .question := by
  intro leaf member
  rcases header.kind_leaves kinds leaf member with isName | isArrow | isColon | isType
  · simp [isName]
  · simp [isArrow]
  · simp [isColon]
  · simp [isType]

/-- The inspections of a program are written for its question marks. -/
theorem inspects_of_reads {blocks : List Block} {tokens : List NumberedToken}
    {written : List AnnotatedToken} (reads : Reads blocks tokens written) :
    Inspects written (beforeEnd tokens) := by
  induction reads with
  | finish sound isEnd =>
    rw [beforeEnd_line (Statement.inLine sound.kinds)]
    refine (inspects_statement sound).append ?_
    simp [Inspects, beforeEnd, isEnd, inspects, questions]
  | newline sound isNewline _ inductionHypothesis =>
    rw [beforeEnd_line (Statement.inLine sound.kinds)]
    exact (inspects_statement sound).append
      (inductionHypothesis.boundary rfl (by simp [isNewline]) (by simp [isNewline]))
  | close sound isBrace _ inductionHypothesis =>
    rw [beforeEnd_line (Statement.inLine sound.kinds)]
    exact (inspects_statement sound).append
      (inductionHypothesis.boundary rfl (by simp [isBrace]) (by simp [isBrace]))
  | @open_ _ header _ _ _ kinds isBrace _ inductionHypothesis =>
    rw [beforeEnd_line (Header.inLine kinds)]
    have ofHeader : Inspects [] header.leaves :=
      @inspects_nothing [] [] _ (by simp) (header_noQuestion kinds)
    exact ofHeader.append
      (inductionHypothesis.boundary rfl (by simp [isBrace]) (by simp [isBrace]))

/-- The places of the question marks before the end of the input. -/
def questionPlaces (tokens : List NumberedToken) : List Place :=
  (questions (beforeEnd tokens)).map NumberedToken.place

theorem questionPlaces_cons (token : NumberedToken) (tokens : List NumberedToken) :
    questionPlaces (token :: tokens) =
      if token.kind = .endOfInput then []
      else if token.kind = .question then token.place :: questionPlaces tokens
      else questionPlaces tokens := by
  by_cases isEnd : token.kind = .endOfInput
  · simp [questionPlaces, questions, beforeEnd, isEnd]
  · by_cases isQuestion : token.kind = .question <;>
      simp [questionPlaces, questions, beforeEnd, isEnd, isQuestion]

theorem questionPlaces_append {tokens : List NumberedToken}
    (only : ∀ token ∈ tokens, token.kind ≠ .endOfInput) (later : List NumberedToken) :
    questionPlaces (tokens ++ later) = questionPlaces tokens ++ questionPlaces later := by
  have alone : beforeEnd tokens = tokens := by simpa [beforeEnd] using beforeEnd_append only []
  simp only [questionPlaces, beforeEnd_append only, alone, questions_append, List.map_append]

theorem questionPlaces_eq_nil {tokens : List NumberedToken}
    (absent : ∀ token ∈ tokens, token.kind ≠ .question) : questionPlaces tokens = [] := by
  have absentBefore : ∀ token ∈ beforeEnd tokens, token.kind ≠ .question := fun token member =>
    absent token ((List.takeWhile_sublist _).subset member)
  rw [questionPlaces, questions_eq_nil absentBefore]
  rfl

/-- The inspections of a program stand where its question marks stand. -/
theorem places_of_reads {blocks : List Block} {tokens : List NumberedToken}
    {written : List AnnotatedToken} (reads : Reads blocks tokens written) :
    (inspects written).map AnnotatedToken.place = questionPlaces tokens := by
  have inspected : inspects written = _ := inspects_of_reads reads
  rw [inspected, List.map_map]
  rfl

/-- They are a matter of the kinds and the lines of the tokens. -/
theorem questionPlaces_congr (count : Nat) {tokens others : List Token}
    (kinds : others.map Token.kind = tokens.map Token.kind)
    (lines : others.map Token.line = tokens.map Token.line) :
    questionPlaces (NumberedToken.ofTokens count others) =
      questionPlaces (NumberedToken.ofTokens count tokens) := by
  induction tokens generalizing others count with
  | nil =>
    obtain rfl := List.map_eq_nil_iff.mp kinds
    rfl
  | cons token tokens inductionHypothesis =>
    obtain ⟨other, others, rfl, kind, laterKinds⟩ := List.map_eq_cons_iff.mp kinds
    obtain ⟨line, laterLines⟩ := List.cons.inj lines
    obtain ⟨token, literal, firstLine, column⟩ := token
    obtain ⟨other, otherLiteral, otherLine, otherColumn⟩ := other
    obtain rfl : other = token := kind
    obtain rfl : otherLine = firstLine := line
    simp only [NumberedToken.ofTokens, questionPlaces_cons, NumberedToken.kind,
      NumberedToken.place, inductionHypothesis _ laterKinds laterLines]
    rfl

/-- Behind a line end the tokens are counted anew. -/
theorem questionPlaces_fresh {ending : Token} (rest : List Token)
    (ends : ending.kind = .newline ∨ ending.kind = .endOfInput) (count : Nat) :
    questionPlaces (NumberedToken.ofTokens count (ending :: rest)) =
      questionPlaces (NumberedToken.ofTokens 0 (ending :: rest)) := by
  simp only [NumberedToken.ofTokens, questionPlaces_cons, NumberedToken.kind]
  rcases ends with isNewline | isEnd
  · simp [isNewline]
  · simp [isEnd]

/-- Tokens between two question marks, up to a line end, do not move them. -/
theorem questionPlaces_between {before middle after : List Token}
    (only : ∀ token ∈ before ++ middle, token.kind ≠ .endOfInput)
    (absent : ∀ token ∈ middle, token.kind ≠ .question)
    (ends : ∃ ending rest, after = ending :: rest ∧
      (ending.kind = .newline ∨ ending.kind = .endOfInput)) :
    questionPlaces (NumberedToken.ofTokens 0 (before ++ middle ++ after)) =
      questionPlaces (NumberedToken.ofTokens 0 before) ++
        questionPlaces (NumberedToken.ofTokens 0 after) := by
  obtain ⟨ending, rest, rfl, ends⟩ := ends
  rw [NumberedToken.ofTokens_append, questionPlaces_append fun token member =>
      only _ (NumberedToken.token_mem_of_mem member),
    questionPlaces_fresh rest ends, NumberedToken.ofTokens_append, questionPlaces_append
      fun token member => only _ (List.mem_append_left _ (NumberedToken.token_mem_of_mem member)),
    questionPlaces_eq_nil fun token member => absent _ (NumberedToken.token_mem_of_mem member),
    List.append_nil]

end ParaLang.Annotations
