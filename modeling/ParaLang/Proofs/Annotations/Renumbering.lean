import ParaLang.Proofs.Annotations.Statements
import ParaLang.Proofs.Interpretation.Essence

/-! # Places of tokens

The essence of what is written for a statement does not depend on the places of its tokens, so a
tree over plain tokens determines it. -/

namespace ParaLang.Annotations

open ParaLang.Grammar
open ParaLang.AnnotatedToken (essence itemEssence)

/-- A token with some number. -/
def NumberedToken.ofToken (token : Token) : NumberedToken :=
  ⟨token, 0⟩

open NumberedToken (ofToken)

/-- A function that forgets at most the place of a token. -/
def KeepsText (forget : NumberedToken → Token) : Prop :=
  ∀ numbered, (forget numbered).kind = numbered.kind ∧
    (forget numbered).literal = numbered.literal

theorem keepsText_token : KeepsText NumberedToken.token := fun _ => ⟨rfl, rfl⟩

section Places

variable {forget : NumberedToken → Token} (keeps : KeepsText forget)
include keeps

/-! ## Tokens -/

theorem kind_forgotten (numbered : NumberedToken) :
    (ofToken (forget numbered)).kind = numbered.kind :=
  (keeps numbered).1

theorem literal_forgotten (numbered : NumberedToken) :
    (ofToken (forget numbered)).literal = numbered.literal :=
  (keeps numbered).2

theorem essence_inRole (numbered : NumberedToken) (role : Role) :
    ((ofToken (forget numbered)).inRole role).essence = (numbered.inRole role).essence := by
  have same : (forget numbered).literal = numbered.token.literal := (keeps numbered).2
  simp only [AnnotatedToken.essence, NumberedToken.inRole, ofToken, AnnotatedToken.isTextless,
    same]
  rfl

theorem alike_literalValue (numbered : NumberedToken) :
    Alike Eq (literalValue numbered) (literalValue (ofToken (forget numbered))) := by
  simp only [literalValue, kind_forgotten keeps, literal_forgotten keeps]
  split
  case h_1 | h_2 =>
    split
    · exact rfl
    · exact Alike.failing _ _ _ _ _ _
    · exact rfl
  all_goals exact rfl

theorem essence_readLiteralToken (numbered : NumberedToken) :
    (readLiteralToken (ofToken (forget numbered))).essence = (readLiteralToken numbered).essence := by
  simp only [readLiteralToken, (alike_literalValue keeps numbered).toOption_eq]
  rfl

omit keeps in
theorem essence_typeToken (numbered : NumberedToken) (type : String) :
    (typeToken (ofToken (forget numbered)) type).essence = (typeToken numbered type).essence := rfl

/-! ## Expressions -/

theorem alike_expressionItem (numbered : NumberedToken) :
    Alike (fun item other => item.itemEssence = other.itemEssence) (expressionItem numbered)
      (expressionItem (ofToken (forget numbered))) := by
  have kind : (forget numbered).kind = numbered.token.kind := (keeps numbered).1
  have literal : (forget numbered).literal = numbered.token.literal := (keeps numbered).2
  have same (role : Role) : (numbered.inRole role).itemEssence =
      ((ofToken (forget numbered)).inRole role).itemEssence := by
    simp [AnnotatedToken.itemEssence, NumberedToken.inRole, ofToken, literal, kind]
  unfold expressionItem
  rw [kind_forgotten keeps, literal_forgotten keeps]
  split
  · refine (alike_literalValue keeps numbered).bind_eq fun value => ?_
    simp [Alike, AnnotatedToken.itemEssence, NumberedToken.inRole, ofToken, literal, kind]
  · split
    · exact same _
    · split
      case h_5 => exact Alike.failing _ _ _ _ _ _
      all_goals exact same _

theorem alike_expressionItems (previous : Option Role) (tokens : List NumberedToken) :
    Alike (fun items others => items.map itemEssence = others.map itemEssence)
      (expressionItems previous tokens)
      (expressionItems previous (tokens.map fun token => ofToken (forget token))) := by
  induction tokens generalizing previous with
  | nil => exact rfl
  | cons token tokens inductionHypothesis =>
    simp only [List.map_cons, expressionItems]
    refine (alike_expressionItem keeps token).bind fun item other same => ?_
    have role : item.itemEssence.role = other.itemEssence.role :=
      congrArg AnnotatedToken.role same
    change item.role = other.role at role
    rw [role]
    refine (inductionHypothesis (some other.role)).bind fun later others sameLater => ?_
    have star : (insertedStar item).itemEssence = (insertedStar other).itemEssence := rfl
    split
    · simpa [Alike, same, star] using sameLater
    · simpa [Alike, same] using sameLater

theorem essence_expressionToken (first : NumberedToken) (more : List NumberedToken) :
    (((expressionToken (ofToken (forget first))
        (more.map fun token => ofToken (forget token))).toOption).getD
      ((ofToken (forget first)).inRole .expression)).essence =
      (((expressionToken first more).toOption).getD (first.inRole .expression)).essence := by
  have same := alike_expressionItems keeps none (first :: more)
  simp only [expressionToken, List.map_cons] at same ⊢
  revert same
  cases expressionItems none (first :: more) <;>
    cases expressionItems none
      (ofToken (forget first) :: more.map fun token => ofToken (forget token)) <;> intro same
  · rfl
  · cases same
  · cases same
  · rename_i items others
    have equal : items.map itemEssence = others.map itemEssence := same
    simp [Except.toOption, AnnotatedToken.essence, NumberedToken.inRole, Role.isBoundary,
      AnnotatedToken.isTextless, equal]

/-! ## Statements -/

section Statements

variable (frames : List Frame)

omit keeps in
theorem essence_spliced (place other : NumberedToken) :
    (spliced frames place).map essence = (spliced frames other).map essence := by
  simp [spliced, State.blockPath, List.map_flatMap, AnnotatedToken.essence, NumberedToken.inRole,
    Role.isBoundary, AnnotatedToken.isTextless]

theorem essence_linkTokens (path : Path NumberedToken) :
    (linkTokens ((path.map forget).map ofToken).outer).map essence =
      (linkTokens path.outer).map essence := by
  simp [Grammar.Path.map, linkTokens, List.flatMap_map, List.map_flatMap, essence_inRole keeps]

theorem essence_pathTokens (path : Path NumberedToken) {last other : AnnotatedToken}
    (same : other.essence = last.essence) :
    (pathTokens frames ((path.map forget).map ofToken) other).map essence =
      (pathTokens frames path last).map essence := by
  simp only [pathTokens, List.map_append, essence_linkTokens keeps, List.map_cons, List.map_nil,
    same]
  rw [essence_spliced]

theorem withModifiers_forgotten (modifiers : List NumberedToken) (name : AnnotatedToken) :
    withModifiers ((modifiers.map forget).map ofToken) name = withModifiers modifiers name := by
  simp [withModifiers, List.foldl_map, kind_forgotten keeps]

omit keeps in
/-- A name and the same name elsewhere stay the same under modifiers. -/
theorem essence_withModifiers (modifiers : List NumberedToken) {name other : AnnotatedToken}
    (inner : name.role.isBoundary = false) (otherInner : other.role.isBoundary = false)
    (same : name.essence = other.essence) :
    (withModifiers modifiers name).essence = (withModifiers modifiers other).essence := by
  rw [AnnotatedToken.essence_of_inner inner, AnnotatedToken.essence_of_inner otherInner] at same
  simp only [AnnotatedToken.mk.injEq] at same
  obtain ⟨role, literal, -, -, -, type, value, mutable, temp, const, -, expression⟩ := same
  have literals : (if name.isTextless = true then "" else name.literal) =
      if other.isTextless = true then "" else other.literal := literal
  have types : (if name.role = .type then name.type else none) =
      if other.role = .type then other.type else none := type
  rw [withModifiers_eq, withModifiers_eq, AnnotatedToken.essence_of_inner (by exact inner),
    AnnotatedToken.essence_of_inner (by exact otherInner), AnnotatedToken.mk.injEq]
  refine ⟨role, literals, rfl, rfl, rfl, types, value, ?_, ?_, ?_, rfl, expression⟩
  · exact congrArg (_ || ·) mutable
  · exact congrArg (_ || ·) temp
  · exact congrArg (_ || ·) const

theorem essence_definitionTokens (definition : Definition NumberedToken) :
    (definitionTokens frames ((definition.map forget).map ofToken)).map essence =
      (definitionTokens frames definition).map essence := by
  obtain ⟨path, modifiers, clause⟩ := definition
  have last (modifiers : List NumberedToken) :
      (withModifiers ((modifiers.map forget).map ofToken)
        ((ofToken (forget path.last)).inRole .identifier)).essence =
        (withModifiers modifiers (path.last.inRole .identifier)).essence := by
    rw [withModifiers_forgotten keeps]
    exact essence_withModifiers _ rfl rfl (essence_inRole keeps _ _)
  simp only [definitionTokens, Definition.allModifiers_map, List.map_append]
  congr 1
  · exact essence_pathTokens keeps frames path (last _)
  · cases clause <;>
      simp [Definition.map, TypeClause.map, clauseTokens, essence_typeToken,
        literal_forgotten keeps]

theorem essence_segmentTokens (segment : Segment NumberedToken) :
    (segmentTokens frames ((segment.map forget).map ofToken)).map essence =
      (segmentTokens frames segment).map essence := by
  cases segment with
  | empty => rfl
  | literal token =>
    simp [Segment.map, segmentTokens, essence_readLiteralToken keeps]
  | name definition => exact essence_definitionTokens keeps frames definition

theorem essence_operandTokens (operand : Operand NumberedToken) :
    (operandTokens frames ((operand.map forget).map ofToken)).map essence =
      (operandTokens frames operand).map essence := by
  cases operand with
  | literal token => simp [Operand.map, operandTokens, essence_readLiteralToken keeps]
  | reference path => exact essence_pathTokens keeps frames path (essence_inRole keeps _ _)

theorem essence_valueTokens (value : RightHandSide NumberedToken) :
    (valueTokens frames ((value.map forget).map ofToken)).map essence =
      (valueTokens frames value).map essence := by
  cases value with
  | single operand => exact essence_operandTokens keeps frames operand
  | expression first more =>
    have same := essence_expressionToken keeps first more
    simpa [RightHandSide.map, valueTokens, Function.comp_def] using same

theorem essence_moreTokens (more : List (NumberedToken × Segment NumberedToken)) :
    (moreTokens frames (more.map fun link =>
      (ofToken (forget link.1), (link.2.map forget).map ofToken))).map essence =
      (moreTokens frames more).map essence := by
  induction more with
  | nil => rfl
  | cons link more inductionHypothesis =>
    simp only [moreTokens] at inductionHypothesis
    simp [moreTokens, essence_segmentTokens keeps, inductionHypothesis, essence_inRole keeps]

theorem essence_inspectedTokens (inspected : List (NumberedToken × Option (Operand NumberedToken))) :
    (inspectedTokens frames (inspected.map fun link =>
      (ofToken (forget link.1), link.2.map fun operand =>
        (operand.map forget).map ofToken))).map essence =
      (inspectedTokens frames inspected).map essence := by
  induction inspected with
  | nil => rfl
  | cons link inspected inductionHypothesis =>
    obtain ⟨question, operand⟩ := link
    simp only [inspectedTokens] at inductionHypothesis
    cases operand <;>
      simp [inspectedTokens, essence_operandTokens keeps, inductionHypothesis, essence_inRole keeps]

omit keeps in
theorem isName_map {α β : Type} (function : α → β) (segment : Segment α) :
    (segment.map function).isName = segment.isName := by
  cases segment <;> rfl

omit keeps in
theorem isTyped_map {α β : Type} (function : α → β) (segment : Segment α) :
    (segment.map function).isTyped = segment.isTyped := by
  cases segment <;> simp [Segment.map, Segment.isTyped, Definition.map]

omit keeps in
theorem essence_inheritedTokens (target : Segment NumberedToken) (equals : NumberedToken) :
    (inheritedTokens frames ((target.map forget).map ofToken) (ofToken (forget equals))).map
      essence = (inheritedTokens frames target equals).map essence := by
  simp only [inheritedTokens, isName_map, isTyped_map]
  split
  · cases frames.findSome? Frame.memberType with
    | none => rfl
    | some type => exact congrArg (fun token => [token]) (@essence_typeToken forget equals type)
  · rfl

theorem essence_bindingTokens (target : Segment NumberedToken) (binding : Binding NumberedToken) :
    (bindingTokens frames ((target.map forget).map ofToken)
      ((binding.map forget).map ofToken)).map essence =
      (bindingTokens frames target binding).map essence := by
  simp only [bindingTokens, Binding.map, List.map_append, List.map_cons,
    essence_inheritedTokens, essence_valueTokens keeps, essence_inRole keeps]
  have inspected := essence_inspectedTokens keeps frames binding.inspected
  simpa [Function.comp_def] using inspected

omit keeps in
theorem lastSegment_map {α β : Type} (function : α → β) (first : Segment α)
    (more : List (α × Segment α)) :
    lastSegment (first.map function)
      (more.map fun (question, segment) => (function question, segment.map function)) =
      (lastSegment first more).map function := by
  induction more generalizing first with
  | nil => rfl
  | cons link more inductionHypothesis => simp [inductionHypothesis]

omit keeps in
theorem target_map {α β : Type} (function : α → β) (statement : Statement α) :
    (statement.map function).target = statement.target.map function :=
  lastSegment_map function statement.first statement.more

/-- What is written for a statement is, up to places, a matter of its tokens. -/
theorem essence_statementTokens (statement : Statement NumberedToken) :
    (statementTokens frames ((statement.map forget).map ofToken)).map essence =
      (statementTokens frames statement).map essence := by
  have more := essence_moreTokens keeps frames statement.more
  simp only [statementTokens, List.map_append, target_map]
  congr 1
  · congr 1
    · exact essence_segmentTokens keeps frames statement.first
    · simpa [Statement.map, Function.comp_def] using more
  · cases binding : statement.binding with
    | none => simp [Statement.map, binding]
    | some binding' =>
      simpa [Statement.map, binding] using
        essence_bindingTokens keeps frames statement.target binding'

end Statements

/-! ## Trees -/

/-- Whether literals have values is not a matter of their places. -/
theorem readable_iff {tokens : List NumberedToken} :
    Readable tokens ↔ ∀ token ∈ tokens.map forget, token.kind.isLiteral = true →
      ∃ value, literalValue (ofToken token) = .ok value := by
  have same (numbered : NumberedToken) : (∃ value, literalValue numbered = .ok value) ↔
      ∃ value, literalValue (ofToken (forget numbered)) = .ok value := by
    have equal := (alike_literalValue keeps numbered).toOption_eq
    revert equal
    cases literalValue numbered <;> cases literalValue (ofToken (forget numbered)) <;>
      simp [Except.toOption]
  rw [Readable, List.forall_mem_map]
  refine forall₂_congr fun numbered _ => ?_
  rw [(keeps numbered).1, same]

theorem wellKinded_forgotten {statement : Statement NumberedToken} :
    (statement.map forget).WellKinded Token.kind ↔ statement.WellKinded NumberedToken.kind := by
  have kinds : (fun numbered => (forget numbered).kind) = NumberedToken.kind :=
    funext fun numbered => (keeps numbered).1
  rw [Statement.wellKinded_map, kinds]

theorem compatible_forgotten {statement : Statement NumberedToken} :
    (statement.map forget).Compatible Token.kind ↔ statement.Compatible NumberedToken.kind := by
  have kinds : (fun numbered => (forget numbered).kind) = NumberedToken.kind :=
    funext fun numbered => (keeps numbered).1
  rw [Statement.compatible_map, kinds]

/-- A sound tree over plain tokens is one over the same tokens at any places. -/
theorem exists_placed {plain : Statement Token} (kinds : plain.WellKinded Token.kind)
    (compatible : plain.Compatible Token.kind)
    (readable : ∀ token ∈ plain.leaves, token.kind.isLiteral = true →
      ∃ value, literalValue (ofToken token) = .ok value)
    {run : List NumberedToken} (same : run.map forget = plain.leaves) :
    ∃ placed : Statement NumberedToken, placed.leaves = run ∧ Sound placed ∧
      placed.map forget = plain := by
  obtain ⟨placed, rfl, rfl⟩ := Statement.exists_of_leaves same
  refine ⟨placed, rfl, ⟨(wellKinded_forgotten keeps).mp kinds,
    (compatible_forgotten keeps).mp compatible, (readable_iff keeps).mpr ?_⟩, rfl⟩
  rwa [same]

end Places

end ParaLang.Annotations
