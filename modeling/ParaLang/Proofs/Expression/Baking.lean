import ParaLang.Proofs.Annotations.Extraction
import ParaLang.Proofs.Expression.Pasting
import ParaLang.Proofs.Statement.Rereading
import ParaLang.Statement

/-! # Texts of values and expressions

The display of a value is read as a literal, behind a sign if the value is negative.  An expression
with such displays in place of its names is read as the items of these displays. -/

namespace ParaLang

open Token (Written)

namespace Value

variable {value : Value}

/-- The tokens that the display of a value is read as. -/
def shownTokens (value : Value) : List Token :=
  value.items.map fun item => item.ofKind item.kind

theorem magnitude_fits (pastes : value.pastes = true) :
    value.magnitude.showsLiteral = true ∧ value.magnitude.FromLiteral := by
  cases value with
  | int value =>
    simp only [Value.pastes, Bool.and_eq_true, decide_eq_true_eq] at pastes
    refine ⟨rfl, ?_⟩
    simp only [magnitude, FromLiteral]
    omega
  | _ => exact ⟨pastes, trivial⟩

theorem display_negative (negative : value.isNegative = true) :
    value.display = "-" ++ value.magnitude.display := by
  match value, negative with
  | .int (.negSucc number), _ => rfl
  | .float number, negative =>
    obtain ⟨mantissa, exponent, contents⟩ := exists_contents negative
    simp only [magnitude, negative, if_true]
    exact Decimal.text_negative contents

/-- A number without a sign is displayed by digits and points. -/
theorem display_magnitude (pastes : value.pastes = true) (negative : value.isNegative = true) :
    ∀ character ∈ value.magnitude.display.toList, character.isDigit = true ∨ character = '.' := by
  intro character member
  match value, negative with
  | .int value, _ => exact .inl ((Decimal.isNumeral_toString value.natAbs).2 character member)
  | .float number, negative =>
    have positional := (magnitude_fits pastes).1
    simp only [magnitude, negative, if_true, showsLiteral] at positional
    simp only [magnitude, negative, if_true] at member
    simpa using List.all_eq_true.mp positional character member

/-- A sign ends in front of the number behind it. -/
theorem endsBefore_magnitude (pastes : value.pastes = true) (negative : value.isNegative = true) :
    Lexeme.EndsBefore (value.magnitude.display ++ " ").toList (.symbol '-') := by
  have digits := display_magnitude pastes negative
  rw [String.toList_append]
  cases text : value.magnitude.display.toList with
  | nil => exact Lexeme.endsBefore_blank [] _
  | cons first others =>
    rw [text] at digits
    refine Lexeme.endsBefore_cons ?_
    simp only [Lexeme.goesOn, beq_eq_false_iff_ne, ne_eq]
    rintro rfl
    rcases digits '>' List.mem_cons_self with isDigit | isPoint
    · cases isDigit
    · cases isPoint

/-- The display of a value is read as its tokens. -/
theorem written_display (pastes : value.pastes = true) :
    Written value.shownTokens (value.display ++ " ").toList := by
  obtain ⟨shows, fits⟩ := magnitude_fits pastes
  have literal : Written [value.magnitude.shownToken] (value.magnitude.display ++ " ").toList := by
    simpa [shownToken] using Written.apart (wellSpelled_shownToken shows fits) .nil
  unfold shownTokens items
  cases negative : value.isNegative with
  | false =>
    rw [magnitude_of_nonnegative negative] at literal ⊢
    exact literal
  | true =>
    have sign : Token.SpelledBefore ⟨.minus, "-", 0, 0⟩ (value.magnitude.display ++ " ").toList :=
      ⟨.symbol '-', ⟨rfl, rfl⟩, rfl, endsBefore_magnitude pastes negative⟩
    rw [display_negative negative, String.append_assoc, String.toList_append]
    exact .touching sign literal

end Value

namespace Expression

open ParaLang.Annotations
open AnnotatedToken (itemEssence)
open Statement (bakeItem)

variable {tree : Scope} {item : AnnotatedToken} {items : List AnnotatedToken}

/-! ## Expressions with values in place of names -/

theorem bakeItem_eq (tree : Scope) (item : AnnotatedToken) :
    bakeItem tree item =
      match known? tree item with
      | some value => value.display
      | none => item.literal := by
  unfold bakeItem known?
  split
  · cases Table.get? tree.entries item.literal <;> rfl
  · rfl

/-- The tokens that an item is read as when the value of its name stands in place of it. -/
def pastedTokens (tree : Scope) (item : AnnotatedToken) : List Token :=
  (pasteItem tree item).map fun item => item.ofKind item.kind

theorem pastedTokens_eq (tree : Scope) (item : AnnotatedToken) :
    pastedTokens tree item =
      match known? tree item with
      | some value => value.shownTokens
      | none => [item.ofKind item.kind] := by
  unfold pastedTokens pasteItem
  cases known? tree item <;> rfl

theorem written_bakeItem (spelled : (item.ofKind item.kind).WellSpelled)
    (pastes : ∀ value, known? tree item = some value → value.pastes = true) :
    Written (pastedTokens tree item) (bakeItem tree item ++ " ").toList := by
  rw [pastedTokens_eq, bakeItem_eq]
  cases known : known? tree item with
  | some value => exact Value.written_display (pastes value known)
  | none => simpa [AnnotatedToken.ofKind] using Written.apart spelled .nil

/-- A value is an operand as a name is. -/
theorem juxtaposed_value (role : Role) :
    juxtaposed .value role = juxtaposed .lookup role ∧
      juxtaposed role .value = juxtaposed role .lookup := by
  cases role <;> exact ⟨rfl, rfl⟩

theorem juxtaposed_sign (previous : Option Role) :
    previous.any (juxtaposed · .operator) = false := by
  cases previous with
  | none => rfl
  | some role => cases role <;> rfl

/-- Values in place of names leave no multiplication out. -/
theorem untouched_paste {previous other : Option Role} (untouched : Untouched previous items)
    (same : ∀ role, other.any (juxtaposed · role) = previous.any (juxtaposed · role)) :
    Untouched other (items.flatMap (pasteItem tree)) := by
  induction items generalizing previous other with
  | nil => exact ⟨List.IsChain.nil, by simp⟩
  | cons item rest inductionHypothesis =>
    obtain ⟨apart, later⟩ := untouched_cons.mp untouched
    rw [List.flatMap_cons, pasteItem]
    cases known : known? tree item with
    | none =>
      exact untouched_cons.mpr ⟨by rw [same, apart], inductionHypothesis later fun _ => rfl⟩
    | some value =>
      rw [(known?_eq_some_iff.mp known).1] at apart later
      have behind : Untouched (some .value) (rest.flatMap (pasteItem tree)) :=
        inductionHypothesis later fun role => (juxtaposed_value role).1
      have inFront : other.any (juxtaposed · .value) = false := by
        rw [same, ← apart]
        exact congrArg (Option.any · previous) (funext fun role => (juxtaposed_value role).2)
      simp only [Value.items]
      cases value.isNegative with
      | false => exact untouched_cons.mpr ⟨inFront, behind⟩
      | true =>
        exact untouched_cons.mpr ⟨juxtaposed_sign other, untouched_cons.mpr ⟨rfl, behind⟩⟩

theorem rereadable_literalItem {value : Value} (shows : value.showsLiteral = true)
    (fits : value.FromLiteral) : Rereadable value.literalItem := by
  obtain ⟨isLiteral, read⟩ := Value.literalValue_shownToken shows fits
  exact ⟨_, expressionItem_eq_ok_iff.mpr (.inl ⟨isLiteral, value, read, rfl⟩), rfl⟩

theorem sameItems_of_essence {items others : List AnnotatedToken}
    (same : others.map itemEssence = items.map itemEssence) :
    List.Forall₂ SameItem items others := by
  induction items generalizing others with
  | nil =>
    rw [List.map_eq_nil_iff.mp same]
    exact .nil
  | cons item items inductionHypothesis =>
    obtain ⟨other, others, rfl, first, later⟩ := List.map_eq_cons_iff.mp same
    refine .cons ⟨?_, ?_, ?_⟩ (inductionHypothesis later)
    · exact (congrArg AnnotatedToken.role first).symm
    · exact (congrArg AnnotatedToken.literal first).symm
    · exact (congrArg AnnotatedToken.value first).symm

end Expression

end ParaLang
