import Mathlib
import ParaLang.Proofs.Annotations.Blocks
import ParaLang.Proofs.Annotations.Elsewhere
import ParaLang.Proofs.Annotations.Extraction
import ParaLang.Proofs.Statement.Flat

/-! # Reading the flat form

The tokens that a statement is shown as make a statement again: all modifiers stand behind the
name, the type alone behind its colon, and the multiplications of an expression are written out.
Up to places, what is annotated for it is what it shows. -/

namespace ParaLang.Annotations

open Grammar
open AnnotatedToken (essence itemEssence shownTokens modifierTokens Presentable)
open Expression (Complete)
open NumberedToken (ofToken unplaced)

/-! ## Parts of statements -/

/-- What is written for a part of a statement is shown as some tokens, and for these the same is
written again. -/
structure Rereads (leaves : List Token) (again written : List AnnotatedToken) : Prop where
  shown : leaves = written.flatMap shownTokens
  readable : ∀ token ∈ leaves, token.kind.isLiteral = true →
    ∃ value, literalValue (ofToken token) = .ok value
  same : again.map essence = written.map essence

namespace Rereads

variable {leaves others : List Token} {again written more moreWritten : List AnnotatedToken}

theorem nil : Rereads [] [] [] :=
  ⟨rfl, by simp, rfl⟩

theorem single {token other : AnnotatedToken} (shown : leaves = token.shownTokens)
    (inert : ∀ leaf ∈ leaves, leaf.kind.isLiteral = false) (same : other.essence = token.essence) :
    Rereads leaves [other] [token] where
  shown := by simpa using shown
  readable leaf member isLiteral := by
    rw [inert leaf member] at isLiteral
    cases isLiteral
  same := by simpa using same

theorem append (rereads : Rereads leaves again written)
    (later : Rereads others more moreWritten) :
    Rereads (leaves ++ others) (again ++ more) (written ++ moreWritten) where
  shown := by rw [rereads.shown, later.shown, List.flatMap_append]
  readable := List.forall_mem_append.mpr ⟨rereads.readable, later.readable⟩
  same := by rw [List.map_append, List.map_append, rereads.same, later.same]

end Rereads

/-- The text of a token as a token of some kind. -/
def shownAs (kind : TokenKind) (token : NumberedToken) : Token :=
  ⟨kind, token.literal, 0, 0⟩

/-- A token that is written by its text alone. -/
theorem rereads_plain {token : NumberedToken} {kind : TokenKind} {role : Role}
    (shown : (token.inRole role).shownTokens = [shownAs kind token])
    (inert : kind.isLiteral = false) :
    Rereads [shownAs kind token] [(ofToken (shownAs kind token)).inRole role]
      [token.inRole role] :=
  .single shown.symm (by simpa [shownAs] using inert) rfl

/-! ## Paths and literals -/

def shownPath (path : Path NumberedToken) : Path Token :=
  ⟨path.outer.map fun link => (shownAs .identifier link.1, Token.arrow),
    shownAs .identifier path.last⟩

theorem wellKinded_shownPath (path : Path NumberedToken) :
    (shownPath path).WellKinded Token.kind :=
  ⟨List.forall_mem_map.mpr fun _ _ => ⟨rfl, rfl⟩, rfl⟩

theorem rereads_links (links : List (NumberedToken × NumberedToken)) :
    Rereads (links.flatMap fun link => [shownAs .identifier link.1, Token.arrow])
      (linkTokens (links.map fun link =>
        (ofToken (shownAs .identifier link.1), ofToken Token.arrow)))
      (linkTokens links) := by
  induction links with
  | nil => exact .nil
  | cons link links inductionHypothesis =>
    have name : Rereads [shownAs .identifier link.1, Token.arrow]
        [(ofToken (shownAs .identifier link.1)).inRole .group] [link.1.inRole .group] :=
      .single rfl (by simp [shownAs, Token.arrow, TokenKind.isLiteral]) rfl
    have arrow : Rereads [] [(ofToken Token.arrow).inRole .arrow] [link.2.inRole .arrow] :=
      .single rfl (by simp) rfl
    exact (name.append arrow).append inductionHypothesis

/-- Behind the links of a path comes what is shown for its last name. -/
theorem rereads_path (path : Path NumberedToken) {again last : AnnotatedToken}
    {behind : List Token}
    (rereads : Rereads (shownAs .identifier path.last :: behind) [again] [last]) :
    Rereads ((shownPath path).leaves ++ behind)
      (pathTokens [] ((shownPath path).map ofToken) again) (pathTokens [] path last) := by
  have split : (shownPath path).leaves ++ behind =
      (path.outer.flatMap fun link => [shownAs .identifier link.1, Token.arrow]) ++
        shownAs .identifier path.last :: behind := by
    simp [shownPath, Path.leaves, List.flatMap_map]
  have links : ((shownPath path).map ofToken).outer =
      path.outer.map fun link =>
        (ofToken (shownAs .identifier link.1), ofToken Token.arrow) := by
    simp [shownPath, Grammar.Path.map]
  rw [split, pathTokens, links]
  exact (rereads_links path.outer).append rereads

/-- A literal is shown by a literal of the same value. -/
theorem rereads_literal {token : NumberedToken}
    (presentable : (readLiteralToken token).Presentable) :
    ∃ shown : Token, shown.kind.isLiteral = true ∧
      Rereads [shown] [readLiteralToken (ofToken shown)] [readLiteralToken token] := by
  obtain ⟨value, given, showsLiteral, fits⟩ := presentable
  obtain ⟨isLiteral, read⟩ := Value.literalValue_shownToken showsLiteral fits
  have written : readLiteralToken token = literalToken token value :=
    congrArg (literalToken token) (Option.some_injective _ given)
  have writtenAgain : readLiteralToken (ofToken value.shownToken) =
      literalToken (ofToken value.shownToken) value := by
    rw [readLiteralToken, read]
    rfl
  refine ⟨value.shownToken, isLiteral, ?_⟩
  rw [written, writtenAgain]
  refine ⟨rfl, ?_, rfl⟩
  intro token member _
  obtain rfl := List.mem_singleton.mp member
  exact ⟨value, read⟩

theorem rereads_operand {operand : Operand NumberedToken}
    (presentable : ∀ token ∈ operandTokens [] operand, token.Presentable) :
    ∃ shown : Operand Token, shown.WellKinded Token.kind ∧
      Rereads shown.leaves (operandTokens [] (shown.map ofToken)) (operandTokens [] operand) := by
  cases operand with
  | literal token =>
    obtain ⟨shown, isLiteral, rereads⟩ := rereads_literal (presentable _ List.mem_cons_self)
    exact ⟨.literal shown, isLiteral, rereads⟩
  | reference path =>
    have rereads := rereads_path path (@rereads_plain path.last .identifier .lookup rfl rfl)
    rw [List.append_nil] at rereads
    exact ⟨.reference (shownPath path), wellKinded_shownPath path, rereads⟩

/-! ## Names with modifiers and types -/

theorem kind_modifierTokens (token : AnnotatedToken) :
    Modifiers Token.kind token.modifierTokens := by
  intro modifier member
  unfold modifierTokens at member
  revert member
  cases token.mutable <;> cases token.temp <;> cases token.const <;>
    simp +contextual [or_imp, TokenKind.isModifier]

theorem any_modifierTokens (token : AnnotatedToken) :
    token.modifierTokens.any (·.kind == .muta) = token.mutable ∧
      token.modifierTokens.any (·.kind == .temp) = token.temp ∧
      token.modifierTokens.any (·.kind == .const) = token.const := by
  unfold modifierTokens
  cases token.mutable <;> cases token.temp <;> cases token.const <;> exact ⟨rfl, rfl, rfl⟩

/-- The name of a definition with its modifiers. -/
def definedName (definition : Definition NumberedToken) : AnnotatedToken :=
  withModifiers definition.allModifiers (definition.path.last.inRole .identifier)

/-- All modifiers stand behind the name, each of them once. -/
def shownDefinition (definition : Definition NumberedToken) : Definition Token :=
  ⟨shownPath definition.path, (definedName definition).modifierTokens,
    definition.clause.map fun clause =>
      ⟨Token.colon, [], ⟨.typeName, clause.type.literal, 0, 0⟩, []⟩⟩

theorem wellKinded_shownDefinition (definition : Definition NumberedToken) :
    (shownDefinition definition).WellKinded Token.kind := by
  refine ⟨wellKinded_shownPath _, kind_modifierTokens _, ?_⟩
  simp [shownDefinition, TypeClause.WellKinded, Modifiers, Token.colon]

theorem allModifiers_shownDefinition (definition : Definition NumberedToken) :
    (shownDefinition definition).allModifiers = (definedName definition).modifierTokens := by
  cases clause : definition.clause <;> simp [Definition.allModifiers, shownDefinition, clause]

theorem compatible_shownDefinition {definition : Definition NumberedToken}
    (compatible : Compatible NumberedToken.kind definition.allModifiers) :
    Compatible Token.kind (shownDefinition definition).allModifiers := by
  obtain ⟨mutable, -, const⟩ := any_modifierTokens (definedName definition)
  rw [allModifiers_shownDefinition, Compatible, mutable, const, definedName,
    mutable_withModifiers, const_withModifiers]
  exact compatible

/-- A name shows its own modifiers. -/
theorem rereads_name (definition : Definition NumberedToken) :
    Rereads (shownAs .identifier definition.path.last :: (definedName definition).modifierTokens)
      [withModifiers ((definedName definition).modifierTokens.map ofToken)
        ((ofToken (shownAs .identifier definition.path.last)).inRole .identifier)]
      [definedName definition] := by
  have role : (definedName definition).role = .identifier := role_withModifiers _ _
  have literal : (definedName definition).literal = definition.path.last.literal := by
    rw [definedName, withModifiers_eq]
    rfl
  obtain ⟨mutable, temp, const⟩ := any_modifierTokens (definedName definition)
  refine .single ?_ ?_ ?_
  · simp [shownTokens, role, AnnotatedToken.ofKind, literal, shownAs]
  · intro token member
    rcases List.mem_cons.mp member with rfl | member
    · rfl
    · have isModifier := kind_modifierTokens _ token member
      cases kind : token.kind <;> simp_all [TokenKind.isModifier, TokenKind.isLiteral]
  · have kinds (kind : TokenKind) :
        ((definedName definition).modifierTokens.map ofToken).any (·.kind == kind) =
          (definedName definition).modifierTokens.any (·.kind == kind) := by
      rw [List.any_map]
      rfl
    rw [withModifiers_eq, kinds, kinds, kinds, mutable, temp, const, definedName, withModifiers_eq]
    simp [essence, NumberedToken.inRole, ofToken, shownAs, Role.isBoundary,
      AnnotatedToken.isTextless, NumberedToken.literal]

theorem rereads_definition (definition : Definition NumberedToken) :
    Rereads (shownDefinition definition).leaves
      (definitionTokens [] ((shownDefinition definition).map ofToken))
      (definitionTokens [] definition) := by
  have path := rereads_path definition.path (rereads_name definition)
  have clause : Rereads (((shownDefinition definition).clause.map TypeClause.leaves).getD [])
      (clauseTokens ((shownDefinition definition).map ofToken).clause)
      (clauseTokens definition.clause) := by
    cases given : definition.clause with
    | none => simpa [shownDefinition, Definition.map, given, clauseTokens] using Rereads.nil
    | some clause =>
      simp only [shownDefinition, Definition.map, given]
      exact .single rfl (by simp [TypeClause.leaves, Token.colon, TokenKind.isLiteral]) rfl
  have modifiers : ((shownDefinition definition).map ofToken).allModifiers =
      (definedName definition).modifierTokens.map ofToken := by
    rw [Definition.allModifiers_map, allModifiers_shownDefinition]
  rw [Definition.leaves, definitionTokens, modifiers]
  exact path.append clause

theorem rereads_segment {segment : Segment NumberedToken}
    (compatible : segment.Compatible NumberedToken.kind)
    (presentable : ∀ token ∈ segmentTokens [] segment, token.Presentable) :
    ∃ shown : Segment Token, shown.WellKinded Token.kind ∧ shown.Compatible Token.kind ∧
      Rereads shown.leaves (segmentTokens [] (shown.map ofToken)) (segmentTokens [] segment) := by
  cases segment with
  | empty => exact ⟨.empty, trivial, trivial, .nil⟩
  | literal token =>
    obtain ⟨shown, isLiteral, rereads⟩ := rereads_literal (presentable _ List.mem_cons_self)
    exact ⟨.literal shown, isLiteral, trivial, rereads⟩
  | name definition =>
    exact ⟨.name (shownDefinition definition), wellKinded_shownDefinition definition,
      compatible_shownDefinition compatible, rereads_definition definition⟩

/-! ## Expressions -/

/-- The token that an item of an expression shows. -/
def shownItem (item : AnnotatedToken) : NumberedToken :=
  ofToken (item.ofKind item.kind)

/-- The token that an item shows is read as the item again. -/
def Rereadable (item : AnnotatedToken) : Prop :=
  ∃ again, expressionItem (shownItem item) = .ok again ∧ again.itemEssence = item.itemEssence

theorem rereadable_item {token : NumberedToken} {item : AnnotatedToken}
    (read : expressionItem token = .ok item) : Rereadable item := by
  rcases expressionItem_eq_ok_iff.mp read with ⟨isLiteral, value, given, rfl⟩ |
    ⟨notLiteral, belongs, rfl⟩
  · have same := alike_literalValue keepsText_unplaced token
    rw [given] at same
    have readAgain : literalValue (shownItem (literalToken token value)) = .ok value := by
      cases other : literalValue (ofToken token.unplaced) with
      | ok other' =>
        rw [other] at same
        cases same
        exact other
      | error failure =>
        rw [other] at same
        cases same
    exact ⟨_, expressionItem_eq_ok_iff.mpr (.inl ⟨isLiteral, value, readAgain, rfl⟩), rfl⟩
  · exact ⟨_, expressionItem_of_kind notLiteral belongs, rfl⟩

/-- No multiplication belongs behind a token of the given role or between two of the items. -/
def Untouched (previous : Option Role) (items : List AnnotatedToken) : Prop :=
  Complete items ∧ ∀ first ∈ items.head?, previous.any (juxtaposed · first.role) = false

theorem untouched_cons {previous : Option Role} {item : AnnotatedToken}
    {rest : List AnnotatedToken} : Untouched previous (item :: rest) ↔
      previous.any (juxtaposed · item.role) = false ∧ Untouched (some item.role) rest := by
  simp only [Untouched, Complete, List.isChain_cons, List.head?_cons, Option.mem_some_iff,
    forall_eq', Option.any_some]
  tauto

/-- With the multiplications written out none is inserted. -/
theorem expressionItems_untouched {previous : Option Role} {items : List AnnotatedToken}
    (untouched : Untouched previous items) (rereadable : ∀ item ∈ items, Rereadable item) :
    ∃ again, expressionItems previous (items.map shownItem) = .ok again ∧
      again.map itemEssence = items.map itemEssence := by
  induction items generalizing previous with
  | nil => exact ⟨[], rfl, rfl⟩
  | cons item rest inductionHypothesis =>
    obtain ⟨apart, later⟩ := untouched_cons.mp untouched
    obtain ⟨⟨again, read, same⟩, ofRest⟩ := List.forall_mem_cons.mp rereadable
    obtain ⟨laterAgain, laterRead, sameLater⟩ := inductionHypothesis later ofRest
    have role : again.role = item.role := congrArg (fun item => item.role) same
    refine ⟨again :: laterAgain, ?_, by simpa [same] using sameLater⟩
    simp [expressionItems, read, role, laterRead, apart]

theorem rereadable_items {previous : Option Role} {tokens : List NumberedToken}
    {items : List AnnotatedToken} (read : expressionItems previous tokens = .ok items) :
    ∀ item ∈ items, Rereadable item :=
  forall_items (fun item _ => ⟨(shownItem (insertedStar item)).inRole .operator, rfl, rfl⟩)
    (fun _ _ _ itemRead => rereadable_item itemRead) read

theorem expressionItems_shownItem {previous : Option Role} {tokens : List NumberedToken}
    {items : List AnnotatedToken} (read : expressionItems previous tokens = .ok items) :
    ∃ again, expressionItems previous (items.map shownItem) = .ok again ∧
      again.map itemEssence = items.map itemEssence :=
  expressionItems_untouched (complete_expressionItems read) (rereadable_items read)

theorem inExpression_of_items {previous : Option Role} {tokens : List NumberedToken}
    {items : List AnnotatedToken} (read : expressionItems previous tokens = .ok items)
    (kinds : ∀ token ∈ tokens, inExpression token.kind = true) :
    ∀ item ∈ items, inExpression item.kind = true := by
  intro item member
  have kind : item.kind = (item.ofKind item.kind).kind := rfl
  rcases ofKind_items read item member with isStar | ⟨token, among, isToken⟩
  · rw [kind, isStar]
    rfl
  · rw [kind, isToken]
    exact kinds token among

/-- All tokens of an expression are among its items. -/
theorem subset_items {previous : Option Role} {tokens : List NumberedToken}
    {items : List AnnotatedToken} (read : expressionItems previous tokens = .ok items) :
    tokens.map NumberedToken.kind ⊆ items.map AnnotatedToken.kind := by
  induction tokens generalizing previous items with
  | nil => simp
  | cons token tokens inductionHypothesis =>
    simp only [expressionItems, Result.bind_eq_ok_iff] at read
    obtain ⟨item, itemRead, later, laterRead, equal⟩ := read
    have kind : item.kind = token.kind := by
      rcases expressionItem_eq_ok_iff.mp itemRead with ⟨-, value, -, rfl⟩ | ⟨-, -, rfl⟩ <;> rfl
    have inLater := inductionHypothesis laterRead
    have all : token.kind :: tokens.map NumberedToken.kind ⊆
        item.kind :: later.map AnnotatedToken.kind := by
      rw [kind]
      exact List.cons_subset_cons _ inLater
    split at equal <;> cases equal
    · exact List.subset_cons_of_subset _ all
    · exact all

theorem valueTokens_expression {frames : List Frame} {first : NumberedToken}
    {more : List NumberedToken} {items : List AnnotatedToken}
    (read : expressionItems none (first :: more) = .ok items) :
    valueTokens frames (.expression first more) = [extractedToken first more items] := by
  rw [valueTokens, expressionToken_of_items read]
  rfl

theorem rereads_expression {first : NumberedToken} {more : List NumberedToken}
    (kinds : (RightHandSide.expression first more).WellKinded NumberedToken.kind)
    (readable : Readable (first :: more)) :
    ∃ shown : RightHandSide Token, shown.WellKinded Token.kind ∧
      Rereads shown.leaves (valueTokens [] (shown.map ofToken))
        (valueTokens [] (.expression first more)) := by
  obtain ⟨inside, arithmetic⟩ := kinds
  obtain ⟨items, read⟩ := expressionItems_readable none inside readable
  obtain ⟨again, readAgain, same⟩ := expressionItems_shownItem read
  obtain ⟨tokens, shownItems⟩ : ∃ tokens, tokens = items.map fun item => item.ofKind item.kind :=
    ⟨_, rfl⟩
  have asShown : items.map shownItem = tokens.map ofToken := by
    rw [shownItems, List.map_map]
    rfl
  have insideShown : ∀ token ∈ tokens, inExpression token.kind = true := by
    rw [shownItems, List.forall_mem_map]
    exact inExpression_of_items read inside
  have arithmeticShown : tokens.any (isArithmetic ·.kind) = true := by
    obtain ⟨token, among, isArithmetic⟩ := List.any_eq_true.mp arithmetic
    obtain ⟨item, inItems, kind⟩ := List.mem_map.mp (subset_items read (List.mem_map_of_mem among))
    rw [shownItems, List.any_map]
    exact List.any_eq_true.mpr ⟨item, inItems, by rwa [← kind] at isArithmetic⟩
  rw [asShown] at readAgain
  cases tokens with
  | nil => cases arithmeticShown
  | cons head tail =>
    refine ⟨.expression head tail, ⟨insideShown, arithmeticShown⟩, ?_, ?_, ?_⟩
    · rw [valueTokens_expression read, List.flatMap_singleton]
      exact shownItems
    · intro token member isLiteral
      exact readable_of_items readAgain (ofToken token) (List.mem_map_of_mem member) isLiteral
    · rw [RightHandSide.map, valueTokens_expression readAgain, valueTokens_expression read]
      simp [extractedToken, essence, NumberedToken.inRole, Role.isBoundary,
        AnnotatedToken.isTextless, same]

theorem rereads_value {value : RightHandSide NumberedToken}
    (kinds : value.WellKinded NumberedToken.kind) (readable : Readable value.leaves)
    (presentable : ∀ token ∈ valueTokens [] value, token.Presentable) :
    ∃ shown : RightHandSide Token, shown.WellKinded Token.kind ∧
      Rereads shown.leaves (valueTokens [] (shown.map ofToken)) (valueTokens [] value) := by
  cases value with
  | single operand =>
    obtain ⟨shown, shownKinds, rereads⟩ := rereads_operand presentable
    exact ⟨.single shown, shownKinds, rereads⟩
  | expression first more => exact rereads_expression kinds readable

/-! ## Statements -/

theorem rereads_more {more : List (NumberedToken × Segment NumberedToken)}
    (compatible : ∀ link ∈ more, link.2.Compatible NumberedToken.kind)
    (presentable : ∀ token ∈ moreTokens [] more, token.Presentable) :
    ∃ shown : List (Token × Segment Token),
      (∀ link ∈ shown, link.1.kind = .question ∧ link.2.WellKinded Token.kind) ∧
      (∀ link ∈ shown, link.2.Compatible Token.kind) ∧
      Rereads (segmentLeaves shown)
        (moreTokens [] (shown.map fun link => (ofToken link.1, link.2.map ofToken)))
        (moreTokens [] more) := by
  induction more with
  | nil => exact ⟨[], by simp, by simp, .nil⟩
  | cons link more inductionHypothesis =>
    obtain ⟨firstCompatible, laterCompatible⟩ := List.forall_mem_cons.mp compatible
    rw [moreTokens, List.flatMap_cons, List.forall_mem_append, List.forall_mem_cons] at presentable
    obtain ⟨⟨-, ofSegment⟩, ofLater⟩ := presentable
    obtain ⟨segment, segmentKinds, segmentCompatible, segmentRereads⟩ :=
      rereads_segment firstCompatible ofSegment
    obtain ⟨shown, shownKinds, shownCompatible, rereads⟩ :=
      inductionHypothesis laterCompatible ofLater
    have question := @rereads_plain link.1 .question .inspect rfl rfl
    refine ⟨(shownAs .question link.1, segment) :: shown,
      List.forall_mem_cons.mpr ⟨⟨rfl, segmentKinds⟩, shownKinds⟩,
      List.forall_mem_cons.mpr ⟨segmentCompatible, shownCompatible⟩, ?_⟩
    exact (question.append segmentRereads).append rereads

theorem rereads_inspected {inspected : List (NumberedToken × Option (Operand NumberedToken))}
    (presentable : ∀ token ∈ inspectedTokens [] inspected, token.Presentable) :
    ∃ shown : List (Token × Option (Operand Token)),
      (∀ link ∈ shown, link.1.kind = .question ∧
        ∀ operand ∈ link.2, operand.WellKinded Token.kind) ∧
      Rereads (inspectedLeaves shown)
        (inspectedTokens [] (shown.map fun link =>
          (ofToken link.1, link.2.map (Operand.map ofToken))))
        (inspectedTokens [] inspected) := by
  induction inspected with
  | nil => exact ⟨[], by simp, .nil⟩
  | cons link inspected inductionHypothesis =>
    obtain ⟨place, operand⟩ := link
    rw [inspectedTokens, List.flatMap_cons, List.forall_mem_append,
      List.forall_mem_cons] at presentable
    obtain ⟨⟨-, ofOperand⟩, ofLater⟩ := presentable
    obtain ⟨shown, shownKinds, rereads⟩ := inductionHypothesis ofLater
    have question := @rereads_plain place .question .inspect rfl rfl
    cases operand with
    | none =>
      exact ⟨(shownAs .question place, none) :: shown,
        List.forall_mem_cons.mpr ⟨⟨rfl, by simp⟩, shownKinds⟩, question.append rereads⟩
    | some operand =>
      obtain ⟨shownOperand, operandKinds, operandRereads⟩ := rereads_operand ofOperand
      refine ⟨(shownAs .question place, some shownOperand) :: shown,
        List.forall_mem_cons.mpr ⟨⟨rfl, ?_⟩, shownKinds⟩,
        (question.append operandRereads).append rereads⟩
      intro other isOperand
      cases isOperand
      exact operandKinds

theorem rereads_binding {target : Segment NumberedToken} {binding : Binding NumberedToken}
    (kinds : binding.WellKinded NumberedToken.kind) (readable : Readable binding.leaves)
    (presentable : ∀ token ∈ bindingTokens [] target binding, token.Presentable) :
    ∃ shown : Binding Token, shown.WellKinded Token.kind ∧ ∀ shownTarget,
      Rereads shown.leaves (bindingTokens [] shownTarget (shown.map ofToken))
        (bindingTokens [] target binding) := by
  rw [bindingTokens, inheritedTokens_none, List.nil_append, List.forall_mem_cons,
    List.forall_mem_append] at presentable
  obtain ⟨-, ofValue, ofInspected⟩ := presentable
  have valueReadable := ((Readable.binding kinds.1).mp readable).1
  obtain ⟨value, valueKinds, valueRereads⟩ := rereads_value kinds.2.1 valueReadable ofValue
  obtain ⟨inspected, inspectedKinds, inspectedRereads⟩ := rereads_inspected ofInspected
  have equals := @rereads_plain binding.equals .equals .assign rfl rfl
  refine ⟨⟨shownAs .equals binding.equals, value, inspected⟩, ⟨rfl, valueKinds, inspectedKinds⟩,
    fun shownTarget => ?_⟩
  rw [bindingTokens, bindingTokens, inheritedTokens_none, inheritedTokens_none]
  exact equals.append (valueRereads.append inspectedRereads)

/-- The flat form of a statement is a statement that reads alike. -/
theorem rereads_statement {statement : Statement NumberedToken} (sound : Sound statement)
    (presentable : ∀ token ∈ statementTokens [] statement, token.Presentable) :
    ∃ shown : Statement Token, shown.WellKinded Token.kind ∧ shown.Compatible Token.kind ∧
      Rereads shown.leaves (statementTokens [] (shown.map ofToken))
        (statementTokens [] statement) := by
  obtain ⟨first, more, binding⟩ := statement
  obtain ⟨⟨-, -, bindingKinds⟩, ⟨firstCompatible, moreCompatible⟩, readable⟩ := sound
  rw [statementTokens, List.forall_mem_append, List.forall_mem_append] at presentable
  obtain ⟨⟨ofFirst, ofMore⟩, ofBinding⟩ := presentable
  obtain ⟨shownFirst, firstKinds, shownFirstCompatible, firstRereads⟩ :=
    rereads_segment firstCompatible ofFirst
  obtain ⟨shownMore, moreKinds, shownMoreCompatible, moreRereads⟩ :=
    rereads_more moreCompatible ofMore
  have segments := firstRereads.append moreRereads
  cases binding with
  | none =>
    exact ⟨⟨shownFirst, shownMore, none⟩, ⟨firstKinds, moreKinds, by simp⟩,
      ⟨shownFirstCompatible, shownMoreCompatible⟩, segments.append .nil⟩
  | some binding =>
    have bindingReadable : Readable binding.leaves := (Readable.append.mp readable).2
    obtain ⟨shownBinding, shownKinds, bindingRereads⟩ :=
      rereads_binding (bindingKinds binding rfl) bindingReadable ofBinding
    refine ⟨⟨shownFirst, shownMore, some shownBinding⟩, ⟨firstKinds, moreKinds, ?_⟩,
      ⟨shownFirstCompatible, shownMoreCompatible⟩, segments.append (bindingRereads _)⟩
    intro other isBinding
    cases isBinding
    exact shownKinds

/-- Tokens that show a statement inside some blocks are those of a statement outside of them which
reads alike. -/
theorem exists_rereading {frames : List Frame} {statement : Statement NumberedToken}
    (sound : Sound statement)
    (presentable : ∀ token ∈ statementTokens frames statement, token.Presentable)
    {run : List NumberedToken}
    (same : run.map unplaced = (statementTokens frames statement).flatMap shownTokens) :
    ∃ other : Statement NumberedToken, other.leaves = run ∧ Sound other ∧
      (statementTokens [] other).map essence = (statementTokens frames statement).map essence := by
  obtain ⟨qualified, -, qualifiedSound, alike⟩ := exists_qualified frames sound 0
  obtain ⟨qualifiedPresentable, sameShown⟩ := AnnotatedToken.shown_of_essence alike presentable
  obtain ⟨shown, kinds, compatible, rereads⟩ :=
    rereads_statement qualifiedSound qualifiedPresentable
  rw [← sameShown, ← rereads.shown] at same
  obtain ⟨other, leaves, otherSound, mapped⟩ :=
    exists_placed keepsText_unplaced kinds compatible rereads.readable same
  refine ⟨other, leaves, otherSound, ?_⟩
  rw [← essence_statementTokens keepsText_unplaced, mapped, rereads.same, alike]

end ParaLang.Annotations
