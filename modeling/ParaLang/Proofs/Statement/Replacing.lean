import ParaLang.Proofs.Expression.Baking
import ParaLang.Proofs.Interpretation.Deeds

/-! # What replaces a right-hand side

A right-hand side with values in place of its names is again one that is read from some text.  A
reference gives way to a literal or, if the value is negative, to a sign and a literal. -/

namespace ParaLang.Annotations

open Grammar
open NumberedToken (ofToken)
open AnnotatedToken (itemEssence shownTokens Presentable)
open Expression (pasteItem pastedTokens Pastes known?)
open Statement (reference?)

/-- A right-hand side with the display of a value. -/
inductive Denotes (value : Value) : RightHandSide NumberedToken → Prop where
  | literal {token : NumberedToken} (read : literalValue token = .ok value) :
      Denotes value (.single (.literal token))
  | signed {first : NumberedToken} {more : List NumberedToken} {items : List AnnotatedToken}
      (read : expressionItems none (first :: more) = .ok items)
      (same : items.map itemEssence = value.items.map itemEssence) :
      Denotes value (.expression first more)

/-- A right-hand side and the one that the baked form writes for it. -/
inductive Bakes (tree : Scope) (groups : List String) :
    RightHandSide NumberedToken → RightHandSide NumberedToken → Prop where
  | literal {token : NumberedToken} : Bakes tree groups (.single (.literal token))
      (.single (.literal token))
  | unknown {path : Path NumberedToken}
      (unknown : reference? tree groups (path.map NumberedToken.token).names = none) :
      Bakes tree groups (.single (.reference path)) (.single (.reference path))
  | reference {path : Path NumberedToken} {found : Variable} {baked : RightHandSide NumberedToken}
      (isFound : reference? tree groups (path.map NumberedToken.token).names = some found)
      (pastes : found.value.pastes = true) (denotes : Denotes found.value baked) :
      Bakes tree groups (.single (.reference path)) baked
  | expression {first head : NumberedToken} {more tail : List NumberedToken}
      {items pasted : List AnnotatedToken} (read : expressionItems none (first :: more) = .ok items)
      (pastes : Pastes tree none items = true)
      (readPasted : expressionItems none (head :: tail) = .ok pasted)
      (same : pasted.map itemEssence = (items.flatMap (pasteItem tree)).map itemEssence) :
      Bakes tree groups (.expression first more) (.expression head tail)

/-- A right-hand side that is read from some text. -/
structure Legible (value : RightHandSide NumberedToken) (tokens : List Token) : Prop where
  kinds : value.WellKinded NumberedToken.kind
  readable : Readable value.leaves
  presentable : ∀ token ∈ valueTokens [] value, token.Presentable
  shown : (valueTokens [] value).flatMap shownTokens = tokens

/-- Items that can be read again are those of a right-hand side. -/
theorem exists_legible {items : List AnnotatedToken} (untouched : Untouched none items)
    (rereadable : ∀ item ∈ items, Rereadable item)
    (kinds : ∀ item ∈ items, inExpression item.kind = true)
    (arithmetic : items.any (isArithmetic ·.kind) = true)
    (spelled : ∀ item ∈ items, (item.ofKind item.kind).WellSpelled) :
    ∃ first more again, expressionItems none (first :: more) = .ok again ∧
      again.map itemEssence = items.map itemEssence ∧
      Legible (.expression first more) (items.map fun item => item.ofKind item.kind) := by
  obtain ⟨again, read, same⟩ := expressionItems_untouched untouched rereadable
  cases shown : items.map shownItem with
  | nil =>
    rw [List.map_eq_nil_iff.mp shown] at arithmetic
    cases arithmetic
  | cons first more =>
    rw [shown] at read
    have readable := readable_of_items read
    have ofItems : again.map (fun item => item.ofKind item.kind) =
        items.map fun item => item.ofKind item.kind := by
      have texts := congrArg (List.map fun item => item.ofKind item.kind) same
      rwa [List.map_map, List.map_map] at texts
    refine ⟨first, more, again, read, same, ⟨?_, ?_⟩, readable, ?_, ?_⟩
    · rw [← shown]
      exact List.forall_mem_map.mpr kinds
    · rw [← shown, List.any_map]
      exact arithmetic
    · rw [valueTokens_expression read, List.forall_mem_singleton]
      refine ⟨again, rfl, items_ne_nil read, ?_⟩
      have ofAgain : ∀ token ∈ again.map (fun item => item.ofKind item.kind),
          token.WellSpelled := by
        rw [ofItems]
        exact List.forall_mem_map.mpr spelled
      exact List.forall_mem_map.mp ofAgain
    · rw [valueTokens_expression read, List.flatMap_singleton]
      exact ofItems

theorem legible_literal {value : Value} (shows : value.showsLiteral = true)
    (fits : value.FromLiteral) :
    literalValue (ofToken value.shownToken) = .ok value ∧
      Legible (.single (.literal (ofToken value.shownToken))) [value.shownToken] := by
  obtain ⟨isLiteral, read⟩ := Value.literalValue_shownToken shows fits
  have written : readLiteralToken (ofToken value.shownToken) =
      literalToken (ofToken value.shownToken) value := by
    rw [readLiteralToken, read]
    rfl
  refine ⟨read, isLiteral, fun token member _ => ?_, ?_, ?_⟩
  · rw [List.mem_singleton.mp member]
    exact ⟨value, read⟩
  · refine List.forall_mem_singleton.mpr ?_
    rw [written]
    exact ⟨value, rfl, shows, fits⟩
  · change shownTokens (readLiteralToken _) ++ [] = _
    rw [written]
    rfl

/-- Every value that pastes is that of a right-hand side with its display. -/
theorem exists_denotes {value : Value} (pastes : value.pastes = true) :
    ∃ baked, Denotes value baked ∧ Legible baked value.shownTokens := by
  obtain ⟨shows, fits⟩ := Value.magnitude_fits pastes
  cases negative : value.isNegative with
  | false =>
    have same := Value.magnitude_of_nonnegative negative
    have tokens : value.shownTokens = [value.shownToken] := by
      simp only [Value.shownTokens, Value.items, negative, same]
      rfl
    rw [same] at shows fits
    obtain ⟨read, legible⟩ := legible_literal shows fits
    exact ⟨_, .literal read, tokens ▸ legible⟩
  | true =>
    -- there are no negative literals, so the display is an expression of two items
    have items : value.items = [Value.signItem, value.magnitude.literalItem] := by
      rw [Value.items, if_pos negative]
    have literal := (Value.literalValue_shownToken shows fits).1
    have untouched : Untouched none value.items := by
      rw [items]
      exact untouched_cons.mpr ⟨rfl, untouched_cons.mpr ⟨rfl, List.IsChain.nil, by simp⟩⟩
    obtain ⟨first, more, again, read, same, legible⟩ := exists_legible untouched
      (items ▸ List.forall_mem_cons.mpr ⟨⟨_, rfl, rfl⟩,
        List.forall_mem_singleton.mpr (Expression.rereadable_literalItem shows fits)⟩)
      (items ▸ List.forall_mem_cons.mpr ⟨rfl, List.forall_mem_singleton.mpr
        (by simp [inExpression, Value.literalItem, literal])⟩)
      (items ▸ rfl)
      (items ▸ List.forall_mem_cons.mpr ⟨⟨.symbol '-', ⟨rfl, rfl⟩, rfl⟩,
        List.forall_mem_singleton.mpr (Value.wellSpelled_shownToken shows fits)⟩)
    exact ⟨_, .signed read same, legible⟩

theorem kind_of_lookup {previous : Option Role} {tokens : List NumberedToken}
    {items : List AnnotatedToken} (read : expressionItems previous tokens = .ok items) :
    ∀ item ∈ items, item.role = .lookup → item.kind = .identifier := by
  refine forall_items (by rintro _ _ ⟨⟩) (fun token _ item itemRead isLookup => ?_) read
  rcases expressionItem_eq_ok_iff.mp itemRead with ⟨-, value, -, rfl⟩ | ⟨-, -, rfl⟩
  · cases isLookup
  · exact (Interpretation.name_of_item itemRead isLookup).1

variable {tree : Scope} {groups : List String}

/-- The items that stand for an item are literals, signs or the item itself. -/
theorem forall_paste {property : AnnotatedToken → Prop} {items : List AnnotatedToken}
    (ofItem : ∀ item ∈ items, property item) (ofSign : property Value.signItem)
    (ofLiteral : ∀ value : Value, value.showsLiteral = true → value.FromLiteral →
      property value.literalItem)
    (pastes : ∀ item ∈ items, ∀ value, known? tree item = some value → value.pastes = true) :
    ∀ item ∈ items.flatMap (pasteItem tree), property item := by
  intro pasted member
  obtain ⟨item, inItems, among⟩ := List.mem_flatMap.mp member
  unfold pasteItem at among
  cases known : known? tree item with
  | none =>
    rw [known] at among
    rw [List.mem_singleton.mp among]
    exact ofItem item inItems
  | some value =>
    obtain ⟨shows, fits⟩ := Value.magnitude_fits (pastes item inItems value known)
    have literal := ofLiteral _ shows fits
    simp only [known, Value.items] at among
    split at among <;> simp only [List.mem_cons, List.not_mem_nil, or_false] at among
    · rcases among with rfl | rfl
      · exact ofSign
      · exact literal
    · exact among ▸ literal

/-- An expression with values in place of names is an expression. -/
theorem exists_pasted {first : NumberedToken} {more : List NumberedToken}
    (kinds : (RightHandSide.expression first more).WellKinded NumberedToken.kind)
    {items : List AnnotatedToken} (read : expressionItems none (first :: more) = .ok items)
    (spelled : ∀ item ∈ items, (item.ofKind item.kind).WellSpelled)
    (pastes : Pastes tree none items = true) :
    ∃ baked, Bakes tree groups (.expression first more) baked ∧
      Legible baked (items.flatMap (pastedTokens tree)) := by
  have values := Expression.pastes_of_mem pastes
  have inside := inExpression_of_items read kinds.1
  have arithmetic : (items.flatMap (pasteItem tree)).any (isArithmetic ·.kind) = true := by
    obtain ⟨token, among, isSign⟩ := List.any_eq_true.mp kinds.2
    obtain ⟨item, inItems, kind⟩ := List.mem_map.mp (subset_items read (List.mem_map_of_mem among))
    rw [← kind] at isSign
    have noLookup : item.role ≠ .lookup := by
      intro isLookup
      rw [kind_of_lookup read item inItems isLookup] at isSign
      cases isSign
    refine List.any_eq_true.mpr ⟨item, List.mem_flatMap.mpr ⟨item, inItems, ?_⟩, isSign⟩
    rw [pasteItem, Expression.known?_eq_none noLookup]
    exact List.mem_singleton_self item
  obtain ⟨head, tail, pasted, readPasted, same, legible⟩ := exists_legible
    (Expression.untouched_paste (complete_expressionItems read) fun _ => rfl)
    (forall_paste (rereadable_items read) ⟨_, rfl, rfl⟩
      (fun _ => Expression.rereadable_literalItem) values)
    (forall_paste inside rfl (fun value shows fits => by
      simp [inExpression, Value.literalItem, (Value.literalValue_shownToken shows fits).1]) values)
    arithmetic
    (forall_paste spelled ⟨.symbol '-', ⟨rfl, rfl⟩, rfl⟩
      (fun _ => Value.wellSpelled_shownToken) values)
  rw [List.map_flatMap] at legible
  exact ⟨_, .expression read pastes readPasted same, legible⟩

end ParaLang.Annotations
