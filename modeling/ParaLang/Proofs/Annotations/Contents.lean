import ParaLang.Proofs.Annotations.Origins
import ParaLang.Proofs.Expression.Soundness

/-! # What annotated tokens carry

In an annotated program every literal carries a value within 32 bits, every type is one of the
four that can be written, and every expression carries items that can be evaluated. -/

namespace ParaLang.Annotations

open ParaLang.Expression (SoundItem SoundItems soundItems_cons rank?)
open ParaLang.Grammar

/-- The types that a program can name. -/
def typeNames : List String :=
  ["int", "float", "string", "bool"]

/-- A raw token at one of some places whose text fits its kind. -/
structure Genuine (places : Place → Prop) (token : NumberedToken) : Prop where
  inside : places token.place
  typed : token.kind = .typeName → token.literal ∈ typeNames
  ranked : token.kind.isOperator = true → (rank? token.literal).isSome

/-- What interpretation relies on. -/
structure Furnished (places : Place → Prop) (token : AnnotatedToken) : Prop where
  inside : places token.place
  valued : token.role = .value → ∃ value, token.value = some value ∧ value.Fits
  typed : token.role = .type → ∃ type ∈ typeNames, token.type = some type
  itemized : token.role = .expression →
    ∃ items, token.expression = some items ∧ SoundItems places items

variable {places : Place → Prop}

/-! ## Literals and items -/

theorem fits_ofNumberLiteral {literal : String} {value : Value}
    (read : Value.ofNumberLiteral literal = .ok value) : value.Fits := by
  unfold Value.ofNumberLiteral at read
  split at read
  · split at read
    · cases read
      rintro _ ⟨⟩
    · cases read
  · split at read
    · split at read
      · rename_i inRange
        cases read
        exact Value.fits_int inRange
      · cases read
    · cases read

theorem fits_literalValue {token : NumberedToken} {value : Value}
    (read : literalValue token = .ok value) : value.Fits := by
  unfold literalValue at read
  split at read
  case h_1 | h_2 =>
    split at read
    · rename_i number isNumber
      cases read
      exact fits_ofNumberLiteral isNumber
    · cases read
    · cases read
  all_goals
    cases read
    rintro _ ⟨⟩

theorem soundItem_expressionItem {token : NumberedToken} (genuine : Genuine places token)
    {item : AnnotatedToken} (read : expressionItem token = .ok item) : SoundItem places item := by
  rcases expressionItem_eq_ok_iff.mp read with ⟨-, value, valueRead, rfl⟩ | ⟨noLiteral, -, rfl⟩
  · exact ⟨genuine.inside, fun _ => ⟨value, rfl, fits_literalValue valueRead⟩, by rintro ⟨⟩⟩
  · refine ⟨genuine.inside, fun isValue => ?_, fun isOperator => genuine.ranked ?_⟩
    · have role : itemRole token.kind = .value := isValue
      cases kind : token.kind <;> simp_all [itemRole, TokenKind.isLiteral, TokenKind.isOperator]
    · have role : itemRole token.kind = .operator := isOperator
      cases kind : token.kind <;> simp_all [itemRole, TokenKind.isLiteral, TokenKind.isOperator]

theorem soundItem_insertedStar {item : AnnotatedToken} (sound : SoundItem places item) :
    SoundItem places (insertedStar item) :=
  ⟨sound.inside, by rintro ⟨⟩, fun _ => rfl⟩

theorem soundItems_expressionItems {previous : Option Role} {tokens : List NumberedToken}
    (genuine : ∀ token ∈ tokens, Genuine places token) {items : List AnnotatedToken}
    (read : expressionItems previous tokens = .ok items) : SoundItems places items :=
  forall_items (fun _ sound => soundItem_insertedStar sound)
    (fun token member _ itemRead => soundItem_expressionItem (genuine token member) itemRead) read

/-! ## Statements -/

/-- The open blocks give their members types that can be written. -/
def TypedFrames (frames : List Frame) : Prop :=
  ∀ frame ∈ frames, ∀ type ∈ frame.memberType, type ∈ typeNames

/-- A raw token in a role carries nothing but its place. -/
theorem furnished_plain {token : AnnotatedToken} (inside : places token.place)
    (noValue : token.role ≠ .value) (noType : token.role ≠ .type)
    (noExpression : token.role ≠ .expression) : Furnished places token :=
  ⟨inside, (absurd · noValue), (absurd · noType), (absurd · noExpression)⟩

theorem furnished_of_origin {frames : List Frame} (typed : TypedFrames frames)
    {leaves : List NumberedToken} (genuine : ∀ leaf ∈ leaves, Genuine places leaf)
    {token : AnnotatedToken} (origin : Origin frames leaves token) : Furnished places token := by
  cases origin with
  | @plain leaf role among fits =>
    refine furnished_plain (genuine leaf among).inside ?_ ?_ ?_ <;> rintro ⟨⟩ <;>
      cases kind : leaf.kind <;> simp [kind, plays] at fits
  | @name leaf among isName modifiers =>
    have place : (withModifiers modifiers (leaf.inRole .identifier)).place = leaf.place := by
      rw [withModifiers_eq]
      rfl
    exact furnished_plain (place ▸ (genuine leaf among).inside) (by simp) (by simp) (by simp)
  | type colonAmong typeAmong isType =>
    exact ⟨(genuine _ colonAmong).inside, by rintro ⟨⟩,
      fun _ => ⟨_, (genuine _ typeAmong).typed isType, rfl⟩, by rintro ⟨⟩⟩
  | inherited among given =>
    obtain ⟨frame, member, isMember⟩ := List.exists_of_findSome?_eq_some given
    exact ⟨(genuine _ among).inside, by rintro ⟨⟩,
      fun _ => ⟨_, typed frame member _ isMember, rfl⟩, by rintro ⟨⟩⟩
  | literal among isLiteral read =>
    exact ⟨(genuine _ among).inside, fun _ => ⟨_, rfl, fits_literalValue read⟩, by rintro ⟨⟩,
      by rintro ⟨⟩⟩
  | expression among read =>
    exact ⟨(genuine _ (among (by simp))).inside, by rintro ⟨⟩, by rintro ⟨⟩,
      fun _ => ⟨_, rfl, soundItems_expressionItems (fun leaf member => genuine leaf (among member))
        read⟩⟩
  | @block leaf _ among inPath =>
    obtain ⟨frame, -, member⟩ := List.mem_flatMap.mp inPath
    have inside := (genuine leaf among).inside
    simp only [List.mem_cons, List.not_mem_nil, or_false] at member
    rcases member with rfl | rfl
    · exact furnished_plain inside (by rintro ⟨⟩) (by rintro ⟨⟩) (by rintro ⟨⟩)
    · exact furnished_plain inside (by rintro ⟨⟩) (by rintro ⟨⟩) (by rintro ⟨⟩)

/-! ## Programs -/

theorem furnished_inRole {token : NumberedToken} (genuine : Genuine places token) {role : Role}
    (boundary : role.isBoundary = true) : Furnished places (token.inRole role) :=
  furnished_plain genuine.inside (by rintro ⟨⟩; cases boundary) (by rintro ⟨⟩; cases boundary)
    (by rintro ⟨⟩; cases boundary)

theorem typedFrames_nil : TypedFrames [] := by
  simp [TypedFrames]

theorem typedFrames_block {header : Header NumberedToken}
    (kinds : header.WellKinded NumberedToken.kind)
    (genuine : ∀ leaf ∈ header.leaves, Genuine places leaf) {blocks : List Block}
    (typed : TypedFrames (framesOfBlocks blocks)) :
    TypedFrames (framesOfBlocks (blockOf header :: blocks)) := by
  have split : framesOfBlocks (blockOf header :: blocks) =
      framesOf (blockOf header).memberType (blockOf header).names ++ framesOfBlocks blocks := rfl
  rw [split, TypedFrames, List.forall_mem_append]
  refine ⟨fun frame member type isType => ?_, typed⟩
  simp only [Block.names, framesOf, List.mem_cons, List.mem_map] at member
  rcases member with rfl | ⟨_, _, rfl⟩
  · obtain ⟨⟨colon, name⟩, given, rfl⟩ := Option.map_eq_some_iff.mp isType
    have among : name ∈ header.leaves := by simp [Header.leaves, given]
    exact (genuine name among).typed (kinds.2.2 _ given).2
  · cases isType

theorem furnished_of_reads {blocks : List Block} {tokens : List NumberedToken}
    {written : List AnnotatedToken} (reads : Reads blocks tokens written)
    (genuine : ∀ token ∈ tokens, Genuine places token)
    (typed : TypedFrames (framesOfBlocks blocks)) :
    ∀ token ∈ written, Furnished places token := by
  have statementTokens {frames : List Frame} (typed : TypedFrames frames)
      {statement : Statement NumberedToken} (sound : Sound statement)
      (genuine : ∀ leaf ∈ statement.leaves, Genuine places leaf) :
      ∀ token ∈ statementTokens frames statement, Furnished places token :=
    fun token member => furnished_of_origin typed genuine (origin_statement sound token member)
  -- the invariant is that the types of the open blocks can be written
  induction reads with
  | @finish statement place rest sound isEnd =>
    simp only [List.forall_mem_append, List.forall_mem_cons] at genuine ⊢
    exact ⟨statementTokens typed sound genuine.1, furnished_inRole genuine.2.1 rfl, by simp⟩
  | newline sound _ _ inductionHypothesis =>
    simp only [List.forall_mem_append, List.forall_mem_cons] at genuine ⊢
    exact ⟨statementTokens typed sound genuine.1, furnished_inRole genuine.2.1 rfl,
      inductionHypothesis genuine.2.2 typed⟩
  | close sound _ _ inductionHypothesis =>
    simp only [List.forall_mem_append, List.forall_mem_cons] at genuine ⊢
    refine ⟨statementTokens typed sound genuine.1, furnished_inRole genuine.2.1 rfl,
      inductionHypothesis genuine.2.2 fun frame member => typed frame ?_⟩
    exact List.mem_append_right _ member
  | open_ kinds _ _ inductionHypothesis =>
    simp only [List.forall_mem_append, List.forall_mem_cons] at genuine ⊢
    refine ⟨furnished_plain genuine.2.1.inside (by rintro ⟨⟩) (by rintro ⟨⟩) (by rintro ⟨⟩),
      inductionHypothesis genuine.2.2 (typedFrames_block kinds genuine.1 typed)⟩

end ParaLang.Annotations
