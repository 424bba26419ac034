import Mathlib
import ParaLang.Proofs.Annotations.Origins
import ParaLang.Proofs.Interpretation.Essence
import ParaLang.Proofs.Value.Display
import ParaLang.Statement

/-! # What the flat form writes

The flat form shows every token of a statement by a text of its own, a literal by the display of
its value.  This module says which tokens these texts are read as, and shows that the line of a
statement is read as the tokens of its parts, one after another.  All tokens of an annotated text
can be shown in this way but for literals whose values are not displayed as literals. -/

namespace ParaLang

open Token (WellSpelled Written)

theorem Token.WellSpelled.congr {token other : Token} (spelled : token.WellSpelled)
    (kind : other.kind = token.kind) (literal : other.literal = token.literal) :
    other.WellSpelled := by
  unfold WellSpelled
  rw [kind, literal]
  exact spelled

/-- Parts with a blank between them are read one by one. -/
theorem Token.written_parts {α : Type} {tokens : α → List Token} {text : α → String}
    {parts : List α} (nonempty : parts ≠ [])
    (written : ∀ part ∈ parts, Written (tokens part) (text part ++ " ").toList) :
    Written (parts.flatMap tokens) (" ".intercalate (parts.map text) ++ " ").toList := by
  induction parts with
  | nil => exact absurd rfl nonempty
  | cons part parts inductionHypothesis =>
    obtain ⟨first, others⟩ := List.forall_mem_cons.mp written
    cases parts with
    | nil => simpa using first
    | cons next parts =>
      have whole := first.append (inductionHypothesis (List.cons_ne_nil _ _) others)
      rw [List.map_cons, List.map_cons, String.intercalate_cons_cons]
      simpa [String.append_assoc] using whole

/-- So are single words. -/
theorem Token.written_words {tokens : List Token} (nonempty : tokens ≠ [])
    (spelled : ∀ token ∈ tokens, token.WellSpelled) :
    Written tokens (" ".intercalate (tokens.map Token.literal) ++ " ").toList := by
  have word : ∀ token ∈ tokens, Written [token] (token.literal ++ " ").toList :=
    fun token member => by simpa using Written.apart (spelled token member) .nil
  simpa using Token.written_parts nonempty word

namespace AnnotatedToken

/-! ## Tokens of texts -/

/-- The modifiers of a name as tokens. -/
def modifierTokens (token : AnnotatedToken) : List Token :=
  (if token.mutable then [⟨.muta, "muta", 0, 0⟩] else []) ++
    (if token.temp then [⟨.temp, "temp", 0, 0⟩] else []) ++
    (if token.const then [⟨.const, "const", 0, 0⟩] else [])

theorem map_literal_modifierTokens (token : AnnotatedToken) :
    token.modifierTokens.map Token.literal = token.modifiers := by
  unfold modifierTokens modifiers
  cases token.mutable <;> cases token.temp <;> cases token.const <;> rfl

theorem wellSpelled_modifierTokens (token : AnnotatedToken) :
    ∀ modifier ∈ token.modifierTokens, modifier.WellSpelled := by
  intro modifier member
  have possible : modifier = ⟨.muta, "muta", 0, 0⟩ ∨ modifier = ⟨.temp, "temp", 0, 0⟩ ∨
      modifier = ⟨.const, "const", 0, 0⟩ := by
    unfold modifierTokens at member
    revert member
    cases token.mutable <;> cases token.temp <;> cases token.const <;> simp <;> tauto
  rcases possible with rfl | rfl | rfl
  · exact ⟨.name, ⟨'m', ['u', 't', 'a'], rfl, rfl, List.all_eq_true.mp rfl⟩, rfl⟩
  · exact ⟨.name, ⟨'t', ['e', 'm', 'p'], rfl, rfl, List.all_eq_true.mp rfl⟩, rfl⟩
  · exact ⟨.name, ⟨'c', ['o', 'n', 's', 't'], rfl, rfl, List.all_eq_true.mp rfl⟩, rfl⟩

/-- The text of a token as a token of some kind. -/
def ofKind (token : AnnotatedToken) (kind : TokenKind) : Token :=
  ⟨kind, token.literal, 0, 0⟩

/-- The tokens that the text of a token in the flat form is read as. -/
def shownTokens (token : AnnotatedToken) : List Token :=
  match token.role with
  | .group => [token.ofKind .identifier, Token.arrow]
  | .type => [Token.colon, token.ofKind .typeName]
  | .value => (token.value.map Value.shownToken).toList
  | .identifier => token.ofKind .identifier :: token.modifierTokens
  | .lookup => [token.ofKind .identifier]
  | .assign => [token.ofKind .equals]
  | .inspect => [token.ofKind .question]
  | .expression => (token.expression.getD []).map fun item => item.ofKind item.kind
  | _ => []

/-- The text of a token in the flat form is read as these tokens. -/
def Presentable (token : AnnotatedToken) : Prop :=
  match token.role with
  | .group | .identifier | .lookup => (token.ofKind .identifier).WellSpelled
  | .arrow => True
  | .type => (token.ofKind .typeName).WellSpelled
  | .value => ∃ value, token.value = some value ∧ value.showsLiteral = true ∧ value.FromLiteral
  | .assign => (token.ofKind .equals).WellSpelled
  | .inspect => (token.ofKind .question).WellSpelled
  | .expression => ∃ items, token.expression = some items ∧ items ≠ [] ∧
      ∀ item ∈ items, (item.ofKind item.kind).WellSpelled
  | _ => False

open Statement (renderToken)

theorem written_shownTokens {token : AnnotatedToken} (presentable : token.Presentable) :
    ∃ text, renderToken token = .ok text ∧ Written token.shownTokens text.toList := by
  have plain {kind : TokenKind} (spelled : (token.ofKind kind).WellSpelled) :
      Written [token.ofKind kind] (token.literal ++ " ").toList := by
    simpa [ofKind] using Written.apart spelled .nil
  unfold Presentable at presentable
  unfold renderToken shownTokens
  cases role : token.role with
  | group =>
    rw [role] at presentable
    refine ⟨_, rfl, ?_⟩
    simpa [ofKind] using Written.link presentable rfl .nil
  | arrow =>
    exact ⟨"", rfl, .nil⟩
  | type =>
    rw [role] at presentable
    refine ⟨_, rfl, ?_⟩
    simpa [ofKind] using Written.type presentable .nil
  | value =>
    rw [role] at presentable
    obtain ⟨value, given, showsLiteral, fits⟩ := presentable
    refine ⟨value.display ++ " ", by simp only [given], ?_⟩
    have written := Written.apart (Value.wellSpelled_shownToken showsLiteral fits) .nil
    simpa [given, Value.shownToken] using written
  | identifier =>
    rw [role] at presentable
    have written := @Token.written_words (token.ofKind .identifier :: token.modifierTokens)
      (List.cons_ne_nil _ _)
      (List.forall_mem_cons.mpr ⟨presentable, token.wellSpelled_modifierTokens⟩)
    rw [List.map_cons, map_literal_modifierTokens] at written
    exact ⟨_, rfl, written⟩
  | expression =>
    rw [role] at presentable
    obtain ⟨items, given, nonempty, spelled⟩ := presentable
    have written := @Token.written_words (items.map fun item => item.ofKind item.kind)
      (by simpa using nonempty) (List.forall_mem_map.mpr spelled)
    rw [List.map_map] at written
    refine ⟨" ".intercalate (items.map literal) ++ " ", by simp only [given], ?_⟩
    rw [given]
    exact written
  | lookup | assign | inspect =>
    rw [role] at presentable
    exact ⟨_, rfl, plain presentable⟩
  | operator | leftParen | rightParen | blockOpen | blockClose | newline | endOfInput
  | other name =>
    rw [role] at presentable
    exact presentable.elim

/-- The text of a statement is read as the tokens of its parts. -/
theorem written_statement {tokens : List AnnotatedToken}
    (presentable : ∀ token ∈ tokens, token.Presentable) :
    ∃ texts, tokens.mapM renderToken = .ok texts ∧
      Written (tokens.flatMap shownTokens) (String.join texts).toList := by
  induction tokens with
  | nil => exact ⟨[], rfl, .nil⟩
  | cons token tokens inductionHypothesis =>
    obtain ⟨text, rendered, written⟩ := written_shownTokens (presentable token (by simp))
    obtain ⟨texts, later, writtenLater⟩ := inductionHypothesis
      fun other member => presentable other (List.mem_cons_of_mem _ member)
    refine ⟨text :: texts, ?_, ?_⟩
    · simp [List.mapM_cons, rendered, later]
    · rw [String.join_cons, String.toList_append]
      exact written.append writtenLater

theorem trimEnd_eq {text : String} {before : List Char} {last : Char}
    (split : text.toList = before ++ [last, ' ']) (noBlank : Text.isBlank last = false) :
    (Text.trimEnd text).toList = text.toList.dropLast := by
  have blank : Text.isBlank ' ' = true := rfl
  simp [Text.trimEnd, split, blank, noBlank]

/-- So is its line, but for the blank at the end. -/
theorem render_statement {tokens : List AnnotatedToken}
    (presentable : ∀ token ∈ tokens, token.Presentable)
    (nonempty : tokens.flatMap shownTokens ≠ []) :
    ∃ line text, Statement.render tokens = .ok line ∧
      Written (tokens.flatMap shownTokens) text ∧ line.toList = text.dropLast := by
  obtain ⟨texts, rendered, written⟩ := written_statement presentable
  obtain ⟨before, last, split, noBlank⟩ := written.text_eq nonempty
  refine ⟨Text.trimEnd (String.join texts), _, ?_, written, trimEnd_eq split noBlank⟩
  rw [Statement.render, rendered]
  rfl

/-! ## Essences -/

theorem inner_of_presentable {token : AnnotatedToken} (presentable : token.Presentable) :
    token.role.isBoundary = false := by
  unfold Presentable at presentable
  cases role : token.role <;> rw [role] at presentable <;> first | rfl | exact presentable.elim

section Essence

variable {token : AnnotatedToken} (inner : token.role.isBoundary = false)
include inner

theorem shownTokens_essence : token.essence.shownTokens = token.shownTokens := by
  rw [essence_of_inner inner]
  cases role : token.role <;>
    simp_all [shownTokens, ofKind, isTextless, modifierTokens, Role.isBoundary]
  cases token.expression <;> simp [itemEssence]

theorem presentable_essence : token.essence.Presentable ↔ token.Presentable := by
  rw [essence_of_inner inner]
  cases role : token.role <;>
    simp_all [Presentable, ofKind, isTextless, Role.isBoundary]
  cases token.expression <;> simp [itemEssence]

end Essence

/-- What is shown is a matter of the essence. -/
theorem shown_of_essence {tokens others : List AnnotatedToken}
    (same : others.map essence = tokens.map essence)
    (presentable : ∀ token ∈ tokens, token.Presentable) :
    (∀ token ∈ others, token.Presentable) ∧
      others.flatMap shownTokens = tokens.flatMap shownTokens := by
  induction tokens generalizing others with
  | nil =>
    obtain rfl := List.map_eq_nil_iff.mp same
    exact ⟨presentable, rfl⟩
  | cons token tokens inductionHypothesis =>
    obtain ⟨other, others, rfl, first, later⟩ := List.map_eq_cons_iff.mp same
    obtain ⟨firstPresentable, laterPresentable⟩ := List.forall_mem_cons.mp presentable
    obtain ⟨othersPresentable, shown⟩ := inductionHypothesis later laterPresentable
    have inner := inner_of_presentable firstPresentable
    have role : other.role = token.role :=
      (role_essence_eq_iff inner).mp (by rw [first, role_essence inner])
    have otherInner : other.role.isBoundary = false := by rw [role, inner]
    refine ⟨List.forall_mem_cons.mpr ⟨?_, othersPresentable⟩, ?_⟩
    · rwa [← presentable_essence otherInner, first, presentable_essence inner]
    · rw [List.flatMap_cons, List.flatMap_cons, shown, ← shownTokens_essence otherInner, first,
        shownTokens_essence inner]

theorem unplaced_shownTokens (token : AnnotatedToken) :
    token.shownTokens.map Token.unplaced = token.shownTokens := by
  have modifiers : token.modifierTokens.map Token.unplaced = token.modifierTokens := by
    unfold modifierTokens
    cases token.mutable <;> cases token.temp <;> cases token.const <;> rfl
  unfold shownTokens
  cases token.role with
  | value => cases token.value <;> rfl
  | identifier => rw [List.map_cons, modifiers]; rfl
  | expression => rw [List.map_map]; rfl
  | _ => rfl

end AnnotatedToken

/-! ## Annotated texts -/

namespace Annotations

open Grammar
open AnnotatedToken (Presentable)

/-- The texts of some tokens are those of lexemes. -/
def Spelled (tokens : List NumberedToken) : Prop :=
  ∀ token ∈ tokens, token.token.WellSpelled

/-- The names and the types of open blocks are spelled like those of a text. -/
def SpelledFrames (frames : List Frame) : Prop :=
  ∀ frame ∈ frames, (⟨.identifier, frame.name, 0, 0⟩ : Token).WellSpelled ∧
    ∀ type ∈ frame.memberType, (⟨.typeName, type, 0, 0⟩ : Token).WellSpelled

/-- A literal is displayed as a literal. -/
def Displayed (token : AnnotatedToken) : Prop :=
  token.role = .value → ∀ value ∈ token.value, value.showsLiteral = true

instance (token : AnnotatedToken) : Decidable (Displayed token) :=
  inferInstanceAs
    (Decidable (token.role = .value → ∀ value ∈ token.value, value.showsLiteral = true))

/-- The items of an expression are its tokens and the inserted multiplications. -/
theorem ofKind_items {previous : Option Role} {tokens : List NumberedToken}
    {items : List AnnotatedToken} (read : expressionItems previous tokens = .ok items) :
    ∀ item ∈ items, item.ofKind item.kind = ⟨.star, "*", 0, 0⟩ ∨
      ∃ token ∈ tokens, item.ofKind item.kind = token.token.unplaced := by
  refine forall_items (fun _ _ => .inl rfl) (fun token member item itemRead => .inr ?_) read
  refine ⟨token, member, ?_⟩
  rcases expressionItem_eq_ok_iff.mp itemRead with ⟨-, value, -, rfl⟩ | ⟨-, -, rfl⟩ <;> rfl

theorem items_ne_nil {previous : Option Role} {first : NumberedToken} {more : List NumberedToken}
    {items : List AnnotatedToken} (read : expressionItems previous (first :: more) = .ok items) :
    items ≠ [] := by
  simp only [expressionItems, Result.bind_eq_ok_iff] at read
  obtain ⟨item, -, later, -, equal⟩ := read
  split at equal <;> cases equal <;> simp

section Presentable

variable {frames : List Frame} {leaves : List NumberedToken} {token : AnnotatedToken}

/-- What is written for the tokens of a text can be shown, if its literals can. -/
theorem presentable_of_origin (spelledFrames : SpelledFrames frames) (spelled : Spelled leaves)
    (origin : Origin frames leaves token) (displayed : Displayed token) : token.Presentable := by
  cases origin with
  | @plain leaf role among fits =>
    have spelledLeaf := spelled leaf among
    cases kind : leaf.kind <;> simp only [kind] at fits <;>
      cases role <;> simp only [plays, Bool.false_eq_true] at fits
    case arrow.arrow => trivial
    all_goals exact spelledLeaf.congr kind.symm rfl
  | @name leaf among isName modifiers =>
    simp only [Presentable, role_withModifiers, NumberedToken.role_inRole]
    rw [withModifiers_eq]
    exact (spelled leaf among).congr isName.symm rfl
  | @type colon type colonAmong typeAmong isType =>
    exact (spelled type typeAmong).congr isType.symm rfl
  | inherited among given =>
    obtain ⟨frame, member, isMember⟩ := List.exists_of_findSome?_eq_some given
    exact (spelledFrames frame member).2 _ isMember
  | @literal leaf value among isLiteral read =>
    exact ⟨value, rfl, displayed rfl value rfl,
      Value.fromLiteral_of_literalValue (spelled leaf among) read⟩
  | @expression first more items among read =>
    refine ⟨items, rfl, items_ne_nil read, fun item member => ?_⟩
    rcases ofKind_items read item member with isStar | ⟨token, inRun, isToken⟩
    · rw [isStar]
      exact ⟨.symbol '*', ⟨rfl, rfl⟩, rfl⟩
    · rw [isToken]
      exact (spelled token (among inRun)).congr rfl rfl
  | block among inPath =>
    obtain ⟨frame, inside, member⟩ := List.mem_flatMap.mp inPath
    simp only [List.mem_cons, List.not_mem_nil, or_false] at member
    rcases member with rfl | rfl
    · exact (spelledFrames frame (List.mem_reverse.mp inside)).1
    · trivial

theorem spelledFrames_nil : SpelledFrames [] := by
  simp [SpelledFrames]

theorem spelledFrames_block {header : Header NumberedToken}
    (kinds : header.WellKinded NumberedToken.kind) (spelled : Spelled header.leaves)
    {blocks : List Block} (spelledFrames : SpelledFrames (framesOfBlocks blocks)) :
    SpelledFrames (framesOfBlocks (blockOf header :: blocks)) := by
  have split : framesOfBlocks (blockOf header :: blocks) =
      framesOf (blockOf header).memberType (blockOf header).names ++ framesOfBlocks blocks := rfl
  rw [split, SpelledFrames, List.forall_mem_append]
  refine ⟨fun frame member => ?_, spelledFrames⟩
  have inPath : header.path.leaves ⊆ header.leaves := List.subset_append_left _ _
  simp only [Block.names, framesOf, blockOf, List.mem_cons, List.mem_map, List.mem_reverse] at member
  rcases member with rfl | ⟨_, ⟨link, inside, rfl⟩, rfl⟩
  · refine ⟨(spelled _ (inPath (last_mem_leaves _))).congr kinds.1.2.symm rfl, fun type isType => ?_⟩
    obtain ⟨⟨colon, name⟩, given, rfl⟩ := Option.map_eq_some_iff.mp isType
    have among : name ∈ header.leaves := by simp [Header.leaves, given]
    exact (spelled name among).congr (kinds.2.2 _ given).2.symm rfl
  · have among : link.1 ∈ header.path.leaves :=
      List.mem_append_left _ (List.mem_flatMap.mpr ⟨link, inside, by simp⟩)
    exact ⟨(spelled _ (inPath among)).congr (kinds.1.1 link inside).1.symm rfl, by simp⟩

end Presentable

end Annotations

end ParaLang
