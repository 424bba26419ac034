import ParaLang.Proofs.Annotations.Qualification
import ParaLang.Proofs.Token.Spelling

/-! # Plain assignments

An assignment without question marks is a statement with a single segment.  Whether its modifiers
are compatible is a matter of its tokens, so a line that is accepted as some statement is accepted
as the assignment that it is. -/

namespace ParaLang.Grammar

variable {α β : Type}

/-! ## Assignments -/

/-- `path MOD* [: MOD* TYPE MOD*] = R`, an assignment without question marks. -/
structure PlainAssignment (α : Type) where
  definition : Definition α
  equals : α
  value : RightHandSide α

namespace PlainAssignment

def leaves (assignment : PlainAssignment α) : List α :=
  assignment.definition.leaves ++ assignment.equals :: assignment.value.leaves

def WellKinded (kind : α → TokenKind) (assignment : PlainAssignment α) : Prop :=
  assignment.definition.WellKinded kind ∧ kind assignment.equals = .equals ∧
    assignment.value.WellKinded kind

def map (function : α → β) (assignment : PlainAssignment α) : PlainAssignment β :=
  ⟨assignment.definition.map function, function assignment.equals, assignment.value.map function⟩

/-- As a statement it has one segment and inspects nothing. -/
def statement (assignment : PlainAssignment α) : Statement α :=
  ⟨.name assignment.definition, [], some ⟨assignment.equals, assignment.value, []⟩⟩

variable {assignment : PlainAssignment α} {kind : α → TokenKind}

@[simp] theorem leaves_statement (assignment : PlainAssignment α) :
    assignment.statement.leaves = assignment.leaves := by
  simp [statement, Statement.leaves, Segment.leaves, segmentLeaves, Binding.leaves,
    inspectedLeaves, leaves]

theorem wellKinded_statement (kinds : assignment.WellKinded kind) :
    assignment.statement.WellKinded kind :=
  ⟨kinds.1, by simp [statement], by simpa [statement, Binding.WellKinded] using kinds.2⟩

theorem wellKinded_map {function : α → β} {kind : β → TokenKind} :
    (assignment.map function).WellKinded kind ↔ assignment.WellKinded (kind <| function ·) := by
  simp [WellKinded, map]

theorem exists_of_leaves {function : α → β} {assignment : PlainAssignment β} {run : List α}
    (leaves : run.map function = assignment.leaves) :
    ∃ lifted : PlainAssignment α, lifted.leaves = run ∧ lifted.map function = assignment := by
  obtain ⟨definition, equals, value⟩ := assignment
  simp only [PlainAssignment.leaves, List.map_eq_append_iff, List.map_eq_cons_iff] at leaves
  obtain ⟨definitionRun, _, rfl, definitionLeaves, equals, valueRun, rfl, rfl, valueLeaves⟩ :=
    leaves
  obtain ⟨definition, rfl, rfl⟩ := Definition.exists_of_leaves definitionLeaves
  obtain ⟨value, rfl, rfl⟩ := RightHandSide.exists_of_leaves valueLeaves
  exact ⟨⟨definition, equals, value⟩, rfl, rfl⟩

@[simp] theorem leaves_map (function : α → β) (assignment : PlainAssignment α) :
    (assignment.map function).leaves = assignment.leaves.map function := by
  simp [map, leaves]

/-- Tokens that differ from those of an assignment in their places make up an assignment, too. -/
theorem exists_elsewhere {assignment : PlainAssignment Token}
    (kinds : assignment.WellKinded Token.kind) {run : List Token}
    (same : run.map Token.unplaced = assignment.leaves.map Token.unplaced) :
    ∃ other : PlainAssignment Token, other.leaves = run ∧
      other.map Token.unplaced = assignment.map Token.unplaced ∧ other.WellKinded Token.kind := by
  rw [← leaves_map] at same
  obtain ⟨other, leaves, mapped⟩ := exists_of_leaves same
  have unplacedKinds : (assignment.map Token.unplaced).WellKinded Token.kind :=
    wellKinded_map.mpr kinds
  rw [← mapped] at unplacedKinds
  exact ⟨other, leaves, mapped, (@wellKinded_map _ _ other Token.unplaced _).mp unplacedKinds⟩

end PlainAssignment

/-! ## Modifiers -/

open Annotations (kinds_of_value)

section Modifiers

variable {kind : α → TokenKind}

theorem not_isModifier_of_inExpression {kind : TokenKind} (belongs : inExpression kind = true) :
    kind.isModifier = false := by
  cases kind <;> simp_all [inExpression, TokenKind.isLiteral, TokenKind.isOperator,
    TokenKind.isModifier]

/-- The modifiers among the tokens of a definition are those of its name. -/
theorem Definition.mem_allModifiers {definition : Definition α}
    (kinds : definition.WellKinded kind) {leaf : α} (member : leaf ∈ definition.leaves)
    (isModifier : (kind leaf).isModifier = true) : leaf ∈ definition.allModifiers := by
  rcases definition.leaf_cases kinds member with inPath | isListed | ⟨-, isColon | isType⟩
  · rcases Path.kind_leaves kinds.1 leaf inPath with isName | isArrow
    · simp [isName, TokenKind.isModifier] at isModifier
    · simp [isArrow, TokenKind.isModifier] at isModifier
  · exact isListed
  · simp [isColon, TokenKind.isModifier] at isModifier
  · simp [isType, TokenKind.isModifier] at isModifier

theorem Definition.allModifiers_subset (definition : Definition α) :
    definition.allModifiers ⊆ definition.leaves := by
  obtain ⟨path, modifiers, clause⟩ := definition
  intro leaf member
  cases clause with
  | none => simp_all [Definition.allModifiers, Definition.leaves]
  | some clause =>
    simp only [Definition.allModifiers, Option.map_some, Option.getD_some,
      List.mem_append] at member
    rcases member with inModifiers | inBefore | inAfter
    · simp [Definition.leaves, inModifiers]
    · simp [Definition.leaves, TypeClause.leaves, inBefore]
    · simp [Definition.leaves, TypeClause.leaves, inAfter]

/-- In a statement of one segment that inspects nothing, a modifier is one of the name in front of the
`=`. -/
theorem exists_name_of_modifier {first : Segment α} {binding : Option (Binding α)}
    (firstKinds : first.WellKinded kind) (bindingKinds : ∀ inner ∈ binding, inner.WellKinded kind)
    (plain : ∀ leaf ∈ Statement.leaves ⟨first, [], binding⟩, kind leaf ≠ .question) {leaf : α}
    (member : leaf ∈ Statement.leaves ⟨first, [], binding⟩)
    (isModifier : (kind leaf).isModifier = true) :
    ∃ definition, first = .name definition ∧ leaf ∈ definition.allModifiers := by
  simp only [Statement.leaves, segmentLeaves, List.flatMap_nil, List.append_nil,
    List.mem_append] at member
  rcases member with inFirst | inBinding
  · cases first with
    | empty => cases inFirst
    | literal token =>
      obtain rfl := List.mem_singleton.mp inFirst
      have isLiteral : (kind leaf).isLiteral = true := firstKinds
      cases actual : kind leaf <;> simp_all [TokenKind.isModifier, TokenKind.isLiteral]
    | name definition =>
      exact ⟨definition, rfl, definition.mem_allModifiers firstKinds inFirst isModifier⟩
  · cases binding with
    | none => cases inBinding
    | some binding =>
      obtain ⟨equalsKind, valueKinds, inspectedKinds⟩ := bindingKinds binding rfl
      simp only [Option.map_some, Option.getD_some, Binding.leaves, List.mem_cons,
        List.mem_append] at inBinding
      rcases inBinding with rfl | inValue | inInspected
      · simp [equalsKind, TokenKind.isModifier] at isModifier
      · have noModifier := not_isModifier_of_inExpression (kinds_of_value valueKinds leaf inValue)
        rw [isModifier] at noModifier
        cases noModifier
      · obtain ⟨link, inside, -⟩ := List.mem_flatMap.mp inInspected
        refine absurd (inspectedKinds link inside).1 (plain link.1 ?_)
        simp only [Statement.leaves, Option.map_some, Option.getD_some, Binding.leaves,
          inspectedLeaves, List.mem_append, List.mem_cons, List.mem_flatMap]
        exact .inr (.inr (.inr ⟨link, inside, .inl rfl⟩))

/-- Without question marks, whether the modifiers of a statement are compatible is a matter of its
tokens. -/
theorem compatible_leaves {statement : Statement α} (kinds : statement.WellKinded kind)
    (compatible : statement.Compatible kind)
    (plain : ∀ leaf ∈ statement.leaves, kind leaf ≠ .question) :
    Compatible kind statement.leaves := by
  obtain ⟨first, more, binding⟩ := statement
  obtain ⟨firstKinds, moreKinds, bindingKinds⟩ := kinds
  obtain rfl : more = [] := by
    cases more with
    | nil => rfl
    | cons link more =>
      refine absurd (moreKinds link (by simp)).1 (plain link.1 ?_)
      simp [Statement.leaves, segmentLeaves]
  rintro ⟨mutable, constant⟩
  obtain ⟨muta, mutaMember, isMuta⟩ := List.any_eq_true.mp mutable
  obtain ⟨const, constMember, isConst⟩ := List.any_eq_true.mp constant
  have mutaKind : kind muta = .muta := by simpa using isMuta
  have constKind : kind const = .const := by simpa using isConst
  obtain ⟨definition, rfl, inModifiers⟩ := exists_name_of_modifier firstKinds bindingKinds plain
    mutaMember (by rw [mutaKind]; rfl)
  obtain ⟨_, ⟨⟩, alsoInModifiers⟩ := exists_name_of_modifier firstKinds bindingKinds plain
    constMember (by rw [constKind]; rfl)
  refine compatible.1 ⟨List.any_eq_true.mpr ⟨muta, inModifiers, isMuta⟩,
    List.any_eq_true.mpr ⟨const, alsoInModifiers, isConst⟩⟩

theorem PlainAssignment.compatible_of_leaves {assignment : PlainAssignment α}
    (compatible : Compatible kind assignment.leaves) : assignment.statement.Compatible kind := by
  have among : assignment.definition.allModifiers ⊆ assignment.leaves :=
    List.Subset.trans assignment.definition.allModifiers_subset (List.subset_append_left _ _)
  have any {accepts : α → Bool} (found : assignment.definition.allModifiers.any accepts = true) :
      assignment.leaves.any accepts = true := by
    obtain ⟨leaf, member, accepted⟩ := List.any_eq_true.mp found
    exact List.any_eq_true.mpr ⟨leaf, among member, accepted⟩
  refine ⟨fun conflict => compatible ⟨any conflict.1, any conflict.2⟩, by simp [statement]⟩

end Modifiers

end ParaLang.Grammar

namespace ParaLang.Annotations

open ParaLang.Grammar

/-- Tokens that are accepted as a statement are accepted as an assignment that they are. -/
theorem sound_assignment_of_leaves {assignment : PlainAssignment NumberedToken}
    (kinds : assignment.WellKinded NumberedToken.kind) {statement : Statement NumberedToken}
    (sound : Sound statement) (same : statement.leaves = assignment.leaves)
    (plain : ∀ leaf ∈ assignment.leaves, leaf.kind ≠ .question) : Sound assignment.statement where
  kinds := PlainAssignment.wellKinded_statement kinds
  compatible := by
    have compatible := compatible_leaves sound.kinds sound.compatible (by rwa [same])
    exact PlainAssignment.compatible_of_leaves (same ▸ compatible)
  readable := by
    rw [PlainAssignment.leaves_statement, ← same]
    exact sound.readable

/-- No token of an assignment is a question mark. -/
theorem assignment_noQuestion {assignment : PlainAssignment Token}
    (kinds : assignment.WellKinded Token.kind) :
    ∀ leaf ∈ assignment.leaves, leaf.kind ≠ .question := by
  obtain ⟨definitionKinds, equalsKind, valueKinds⟩ := kinds
  refine List.forall_mem_append.mpr ⟨fun leaf member => ?_, List.forall_mem_cons.mpr ⟨?_, ?_⟩⟩
  · exact (@segment_plain (.name assignment.definition) definitionKinds leaf member).2
  · simp [equalsKind]
  · exact fun leaf member => bne_iff_ne.mp (value_noQuestion valueKinds leaf member)

theorem assignment_inLine {assignment : PlainAssignment Token}
    (kinds : assignment.WellKinded Token.kind) :
    ∀ leaf ∈ assignment.leaves, inLine leaf.kind = true := by
  have inside := Statement.inLine (PlainAssignment.wellKinded_statement kinds)
  rwa [PlainAssignment.leaves_statement] at inside

end ParaLang.Annotations
