import ParaLang.Proofs.Statement.RoundTrip

/-! # The shape of annotated programs

Interpretation relies on how the tokens around a token look.  What is written for each part of a
statement has this shape whatever stands around the part, with two exceptions: an expression stands
behind an `=`, and what is assigned is followed by a question mark or by the end of the line. -/

namespace ParaLang.Annotations

open ParaLang.Grammar

/-! ## Shapes -/

/-- Groups with their arrows and a name that is looked up. -/
inductive IsReference : List AnnotatedToken → Prop where
  | lookup {name : AnnotatedToken} (isLookup : name.role = .lookup) : IsReference [name]
  | group {group arrow : AnnotatedToken} {rest : List AnnotatedToken} (isGroup : group.role = .group)
      (isArrow : arrow.role = .arrow) (reference : IsReference rest) :
      IsReference (group :: arrow :: rest)

/-- What an `=` assigns: a literal, an expression or a reference. -/
def IsAssigned (tokens : List AnnotatedToken) : Prop :=
  (∃ token, tokens = [token] ∧ (token.role = .value ∨ token.role = .expression)) ∨
    IsReference tokens

/-- The roles of the tokens that may follow what is assigned. -/
def endsAssigned : Role → Bool
  | .newline | .endOfInput | .blockClose | .inspect => true
  | _ => false

/-- A token fits between the role before it, if there is one, and the tokens after it. -/
structure FitsBetween (previous : Option Role) (token : AnnotatedToken)
    (after : List AnnotatedToken) : Prop where
  assign : token.role = .assign → ∃ assigned follow rest, after = assigned ++ follow :: rest ∧
    IsAssigned assigned ∧ endsAssigned follow.role = true
  expression : token.role = .expression → previous = some .assign ∧
    ∃ run, token.expression = some run ∧ run ≠ [] ∧
      ∀ item ∈ run, item.role = .value → item.value.isSome = true
  group : token.role = .group → ∃ arrow next rest, after = arrow :: next :: rest ∧
    arrow.role = .arrow ∧ next.isSegment = true
  arrow : token.role = .arrow → previous = some .group
  value : token.role = .value → token.value.isSome = true
  outside : token.role ≠ .operator ∧ token.role ≠ .leftParen ∧ token.role ≠ .rightParen

/-- The roles that fit everywhere. -/
def isFree : Role → Bool
  | .identifier | .lookup | .type | .inspect | .newline | .endOfInput | .blockOpen
  | .blockClose => true
  | _ => false

theorem fits_free {token : AnnotatedToken} (free : isFree token.role = true)
    (previous : Option Role) (after : List AnnotatedToken) : FitsBetween previous token after := by
  constructor <;> cases role : token.role <;> simp_all [isFree]

section Fits

variable {token : AnnotatedToken}

theorem fits_group (isGroup : token.role = .group) (previous : Option Role)
    {after : List AnnotatedToken} (follows : ∃ arrow next rest, after = arrow :: next :: rest ∧
      arrow.role = .arrow ∧ next.isSegment = true) : FitsBetween previous token after := by
  constructor
  case group => exact fun _ => follows
  all_goals simp [isGroup]

theorem fits_arrow (isArrow : token.role = .arrow) (after : List AnnotatedToken) :
    FitsBetween (some .group) token after := by
  constructor <;> simp [isArrow]

theorem fits_value (isValue : token.role = .value) (valued : token.value.isSome = true)
    (previous : Option Role) (after : List AnnotatedToken) : FitsBetween previous token after := by
  constructor <;> simp [isValue, valued]

theorem fits_expression (isExpression : token.role = .expression)
    (carries : ∃ run, token.expression = some run ∧ run ≠ [] ∧
      ∀ item ∈ run, item.role = .value → item.value.isSome = true)
    (after : List AnnotatedToken) : FitsBetween (some .assign) token after := by
  constructor <;> simp [isExpression, carries]

theorem fits_assign (isAssign : token.role = .assign) (previous : Option Role)
    {after : List AnnotatedToken} (follows : ∃ assigned follow rest,
      after = assigned ++ follow :: rest ∧ IsAssigned assigned ∧ endsAssigned follow.role = true) :
    FitsBetween previous token after := by
  constructor
  case assign => exact fun _ => follows
  all_goals simp [isAssign]

end Fits

/-- Every one of some tokens fits, with what is before and after all of them. -/
def Shaped : Option Role → List AnnotatedToken → List AnnotatedToken → Prop
  | _, [], _ => True
  | previous, token :: rest, after =>
    FitsBetween previous token (rest ++ after) ∧ Shaped (some token.role) rest after

/-- The role before what follows some tokens. -/
def roleBehind (previous : Option Role) : List AnnotatedToken → Option Role
  | [] => previous
  | token :: rest => roleBehind (some token.role) rest

section Shaped

variable {previous : Option Role} {tokens before after : List AnnotatedToken}
  {token : AnnotatedToken}

@[simp] theorem shaped_nil : Shaped previous [] after :=
  trivial

@[simp] theorem shaped_cons : Shaped previous (token :: tokens) after ↔
    FitsBetween previous token (tokens ++ after) ∧ Shaped (some token.role) tokens after :=
  Iff.rfl

theorem shaped_append : Shaped previous (before ++ tokens) after ↔
    Shaped previous before (tokens ++ after) ∧ Shaped (roleBehind previous before) tokens after := by
  induction before generalizing previous with
  | nil => simp [roleBehind]
  | cons token before inductionHypothesis =>
    simp [roleBehind, inductionHypothesis, and_assoc]

theorem roleBehind_eq (previous : Option Role) (before : List AnnotatedToken) :
    roleBehind previous before = (before.getLast?.map (·.role)).or previous := by
  induction before generalizing previous with
  | nil => rfl
  | cons token before inductionHypothesis =>
    rw [roleBehind, inductionHypothesis, List.getLast?_cons]
    cases before.getLast? <;> rfl

theorem fits_of_shaped (shaped : Shaped none (before ++ token :: after) []) :
    FitsBetween (before.getLast?.map (·.role)) token after := by
  have fits := (shaped_append.mp shaped).2.1
  rwa [roleBehind_eq, Option.or_none, List.append_nil] at fits

end Shaped

/-! ## Paths -/

/-- Groups with their arrows. -/
inductive Links : List AnnotatedToken → Prop where
  | nil : Links []
  | cons {group arrow : AnnotatedToken} {rest : List AnnotatedToken} (isGroup : group.role = .group)
      (isArrow : arrow.role = .arrow) (later : Links rest) : Links (group :: arrow :: rest)

theorem Links.append {front back : List AnnotatedToken} (links : Links front)
    (more : Links back) : Links (front ++ back) := by
  induction links with
  | nil => exact more
  | cons isGroup isArrow _ inductionHypothesis => exact .cons isGroup isArrow inductionHypothesis

theorem links_spliced (frames : List Frame) (place : NumberedToken) :
    Links (spliced frames place) := by
  unfold spliced State.blockPath
  induction frames.reverse with
  | nil => exact .nil
  | cons frame frames inductionHypothesis => exact .cons rfl rfl inductionHypothesis

theorem links_linkTokens (links : List (NumberedToken × NumberedToken)) :
    Links (linkTokens links) := by
  induction links with
  | nil => exact .nil
  | cons link links inductionHypothesis => exact .cons rfl rfl inductionHypothesis

/-- A path is links and a last segment. -/
theorem links_path (frames : List Frame) (path : Path NumberedToken) :
    Links (spliced frames path.first ++ linkTokens path.outer) :=
  (links_spliced frames path.first).append (links_linkTokens path.outer)

theorem Links.shaped {links : List AnnotatedToken} (isLinks : Links links) {last : AnnotatedToken}
    (segment : last.isSegment = true) (free : isFree last.role = true) (previous : Option Role)
    (after : List AnnotatedToken) : Shaped previous (links ++ [last]) after := by
  induction isLinks generalizing previous with
  | nil => exact shaped_cons.mpr ⟨fits_free free _ _, shaped_nil⟩
  | @cons group arrow rest isGroup isArrow later inductionHypothesis =>
    obtain ⟨next, others, follows, isSegment⟩ : ∃ next others,
        rest ++ [last] ++ after = next :: others ∧ next.isSegment = true := by
      cases later with
      | nil => exact ⟨last, after, rfl, segment⟩
      | cons isGroup =>
        exact ⟨_, _, rfl, by simp [AnnotatedToken.isSegment, isGroup, Role.isSegment]⟩
    refine shaped_cons.mpr ⟨?_, shaped_cons.mpr ⟨?_, inductionHypothesis _⟩⟩
    · exact fits_group isGroup previous ⟨arrow, next, others, congrArg _ follows, isArrow, isSegment⟩
    · rw [isGroup]
      exact fits_arrow isArrow _

theorem Links.isReference {links : List AnnotatedToken} (isLinks : Links links)
    {last : AnnotatedToken} (isLookup : last.role = .lookup) : IsReference (links ++ [last]) := by
  induction isLinks with
  | nil => exact .lookup isLookup
  | cons isGroup isArrow _ inductionHypothesis => exact .group isGroup isArrow inductionHypothesis

/-! ## Parts of statements -/

section Parts

variable (frames : List Frame) (previous : Option Role) (after : List AnnotatedToken)

theorem shaped_literal (token : NumberedToken) :
    Shaped previous [readLiteralToken token] after :=
  shaped_cons.mpr ⟨fits_value rfl rfl _ _, shaped_nil⟩

theorem shaped_definition (definition : Definition NumberedToken) :
    Shaped previous (definitionTokens frames definition) after := by
  have isName : (withModifiers definition.allModifiers
      (definition.path.last.inRole .identifier)).role = .identifier := by simp
  refine shaped_append.mpr ⟨?_, ?_⟩
  · apply (links_path frames definition.path).shaped
    · rw [AnnotatedToken.isSegment, isName]
      rfl
    · rw [isName]
      rfl
  · cases definition.clause with
    | none => exact shaped_nil
    | some clause => exact shaped_cons.mpr ⟨fits_free rfl _ _, shaped_nil⟩

theorem shaped_segment (segment : Segment NumberedToken) :
    Shaped previous (segmentTokens frames segment) after := by
  cases segment with
  | empty => exact shaped_nil
  | literal token => exact shaped_literal _ _ token
  | name definition => exact shaped_definition _ _ _ definition

theorem shaped_operand (operand : Operand NumberedToken) :
    Shaped previous (operandTokens frames operand) after := by
  cases operand with
  | literal token => exact shaped_literal _ _ token
  | reference path => exact (links_path frames path).shaped rfl rfl _ _

theorem shaped_more (more : List (NumberedToken × Segment NumberedToken)) :
    Shaped previous (moreTokens frames more) after := by
  induction more generalizing previous with
  | nil => exact shaped_nil
  | cons link more inductionHypothesis =>
    refine shaped_cons.mpr ⟨fits_free rfl _ _, shaped_append.mpr ⟨?_, inductionHypothesis _⟩⟩
    exact shaped_segment _ _ _ link.2

theorem shaped_inspected (inspected : List (NumberedToken × Option (Operand NumberedToken))) :
    Shaped previous (inspectedTokens frames inspected) after := by
  induction inspected generalizing previous with
  | nil => exact shaped_nil
  | cons link inspected inductionHypothesis =>
    refine shaped_cons.mpr ⟨fits_free rfl _ _, shaped_append.mpr ⟨?_, inductionHypothesis _⟩⟩
    cases link.2 with
    | none => exact shaped_nil
    | some operand => exact shaped_operand _ _ _ operand

theorem shaped_inherited (target : Segment NumberedToken) (equals : NumberedToken) :
    Shaped previous (inheritedTokens frames target equals) after := by
  unfold inheritedTokens
  split
  · cases frames.findSome? Frame.memberType with
    | none => exact shaped_nil
    | some type => exact shaped_cons.mpr ⟨fits_free rfl _ _, shaped_nil⟩
  · exact shaped_nil

end Parts

/-! ### What is assigned -/

section Values

variable {value : RightHandSide NumberedToken} (kinds : value.WellKinded NumberedToken.kind)
  (readable : Readable value.leaves) (frames : List Frame)

/-- The items of an expression: there are some, and those that are literals have values. -/
theorem valued_items {previous : Option Role} {tokens : List NumberedToken}
    {items : List AnnotatedToken} (read : expressionItems previous tokens = .ok items) :
    (tokens ≠ [] → items ≠ []) ∧ ∀ item ∈ items, item.role = .value → item.value.isSome = true := by
  induction tokens generalizing previous items with
  | nil =>
    cases read
    simp
  | cons token tokens inductionHypothesis =>
    simp only [expressionItems, Result.bind_eq_ok_iff] at read
    obtain ⟨item, itemRead, later, laterRead, equal⟩ := read
    have valued : item.role = .value → item.value.isSome = true := by
      intro isValue
      rcases expressionItem_eq_ok_iff.mp itemRead with ⟨-, _, -, rfl⟩ | ⟨noLiteral, -, rfl⟩
      · rfl
      · have role : itemRole token.kind = .value := isValue
        cases kind : token.kind <;>
          simp_all [itemRole, TokenKind.isLiteral, TokenKind.isOperator]
    have valuedLater := (inductionHypothesis laterRead).2
    split at equal <;> cases equal
    · exact ⟨by simp, List.forall_mem_cons.mpr ⟨by rintro ⟨⟩,
        List.forall_mem_cons.mpr ⟨valued, valuedLater⟩⟩⟩
    · exact ⟨by simp, List.forall_mem_cons.mpr ⟨valued, valuedLater⟩⟩

include kinds readable in
theorem shaped_value (after : List AnnotatedToken) :
    Shaped (some .assign) (valueTokens frames value) after := by
  cases value with
  | single operand => exact shaped_operand _ _ _ operand
  | expression first more =>
    obtain ⟨items, read⟩ := expressionItems_readable none kinds.1 readable
    obtain ⟨nonempty, valued⟩ := valued_items read
    simp only [valueTokens, expressionToken_of_items read, Except.toOption, Option.getD_some]
    refine shaped_cons.mpr ⟨?_, shaped_nil⟩
    exact fits_expression rfl ⟨items, rfl, nonempty (List.cons_ne_nil _ _), valued⟩ _

include kinds readable in
theorem isAssigned_value : IsAssigned (valueTokens frames value) := by
  cases value with
  | single operand =>
    cases operand with
    | literal token => exact .inl ⟨_, rfl, .inl rfl⟩
    | reference path => exact .inr ((links_path frames path).isReference rfl)
  | expression first more =>
    obtain ⟨items, read⟩ := expressionItems_readable none kinds.1 readable
    simp only [valueTokens, expressionToken_of_items read, Except.toOption, Option.getD_some]
    exact .inl ⟨_, rfl, .inr rfl⟩

end Values

/-! ## Statements -/

/-- What follows a statement, or what is assigned in it, starts with a token of one of these
roles. -/
def Ended (after : List AnnotatedToken) : Prop :=
  ∃ follow rest, after = follow :: rest ∧ endsAssigned follow.role = true

theorem ended_inspected {after : List AnnotatedToken} (ended : Ended after)
    (inspected : List (NumberedToken × Option (Operand NumberedToken))) (frames : List Frame) :
    Ended (inspectedTokens frames inspected ++ after) := by
  cases inspected with
  | nil => exact ended
  | cons link inspected => exact ⟨_, _, rfl, rfl⟩

theorem shaped_binding {target : Segment NumberedToken} {binding : Binding NumberedToken}
    (kinds : binding.WellKinded NumberedToken.kind) (readable : Readable binding.leaves)
    (frames : List Frame) (previous : Option Role) {after : List AnnotatedToken}
    (ended : Ended after) : Shaped previous (bindingTokens frames target binding) after := by
  obtain ⟨isEquals, valueKinds, -⟩ := kinds
  have valueReadable := ((Readable.binding isEquals).mp readable).1
  obtain ⟨follow, rest, follows, ends⟩ := ended_inspected ended binding.inspected frames
  refine shaped_append.mpr ⟨shaped_inherited _ _ _ _ _, shaped_cons.mpr ⟨?_, ?_⟩⟩
  · refine fits_assign rfl _ ⟨valueTokens frames binding.value, follow, rest, ?_,
      isAssigned_value valueKinds valueReadable frames, ends⟩
    rw [List.append_assoc, follows]
  · exact shaped_append.mpr ⟨shaped_value valueKinds valueReadable frames _,
      shaped_inspected _ _ _ _⟩

theorem shaped_statement {statement : Statement NumberedToken} (sound : Sound statement)
    (frames : List Frame) (previous : Option Role) {after : List AnnotatedToken}
    (ended : Ended after) : Shaped previous (statementTokens frames statement) after := by
  obtain ⟨first, more, binding⟩ := statement
  obtain ⟨⟨-, -, bindingKinds⟩, -, readable⟩ := sound
  refine shaped_append.mpr ⟨shaped_append.mpr ⟨shaped_segment _ _ _ _, shaped_more _ _ _ _⟩, ?_⟩
  cases binding with
  | none => exact shaped_nil
  | some binding =>
    refine shaped_binding (bindingKinds binding rfl) (fun token member => readable token ?_) _ _ ended
    simp [Statement.leaves, member]

/-- The tokens of a program fit. -/
theorem shaped_of_reads {blocks : List Block} {tokens : List NumberedToken}
    {written : List AnnotatedToken} (reads : Reads blocks tokens written)
    (previous : Option Role) : Shaped previous written [] := by
  induction reads generalizing previous with
  | @finish statement place rest sound isEnd =>
    exact shaped_append.mpr ⟨shaped_statement sound _ _ ⟨_, _, rfl, rfl⟩,
      shaped_cons.mpr ⟨fits_free rfl _ _, shaped_nil⟩⟩
  | newline sound _ _ inductionHypothesis =>
    exact shaped_append.mpr ⟨shaped_statement sound _ _ ⟨_, _, rfl, rfl⟩,
      shaped_cons.mpr ⟨fits_free rfl _ _, inductionHypothesis _⟩⟩
  | close sound _ _ inductionHypothesis =>
    exact shaped_append.mpr ⟨shaped_statement sound _ _ ⟨_, _, rfl, rfl⟩,
      shaped_cons.mpr ⟨fits_free rfl _ _, inductionHypothesis _⟩⟩
  | open_ _ _ _ inductionHypothesis =>
    exact shaped_cons.mpr ⟨fits_free rfl _ _, inductionHypothesis _⟩

/-! ## Sides of an assignment -/

/-- The roles in front of an `=` in its statement. -/
def inFront : Role → Bool
  | .group | .arrow | .identifier | .type | .value | .inspect => true
  | _ => false

/-- The roles behind an `=` in its statement. -/
def behind : Role → Bool
  | .group | .arrow | .lookup | .value | .expression | .inspect => true
  | _ => false

theorem Links.roles {links : List AnnotatedToken} (isLinks : Links links) :
    ∀ token ∈ links, inFront token.role = true ∧ behind token.role = true := by
  induction isLinks with
  | nil => simp
  | cons isGroup isArrow _ inductionHypothesis =>
    exact List.forall_mem_cons.mpr ⟨by rw [isGroup]; exact ⟨rfl, rfl⟩,
      List.forall_mem_cons.mpr ⟨by rw [isArrow]; exact ⟨rfl, rfl⟩, inductionHypothesis⟩⟩

section Sides

variable (frames : List Frame)

theorem inFront_segment (segment : Segment NumberedToken) :
    ∀ token ∈ segmentTokens frames segment, inFront token.role = true := by
  cases segment with
  | empty => simp [segmentTokens]
  | literal token => simp [segmentTokens, readLiteralToken, inFront]
  | name definition =>
    simp only [segmentTokens, definitionTokens, pathTokens, List.forall_mem_append,
      List.forall_mem_singleton]
    refine ⟨⟨?_, by simp [inFront]⟩, ?_⟩
    · rw [← List.forall_mem_append]
      exact fun token member => ((links_path frames definition.path).roles token member).1
    · cases definition.clause <;> simp [clauseTokens, typeToken, inFront]

theorem behind_operand (operand : Operand NumberedToken) :
    ∀ token ∈ operandTokens frames operand, behind token.role = true := by
  cases operand with
  | literal token => simp [operandTokens, readLiteralToken, behind]
  | reference path =>
    simp only [operandTokens, pathTokens, List.forall_mem_append, List.forall_mem_singleton]
    refine ⟨?_, rfl⟩
    rw [← List.forall_mem_append]
    exact fun token member => ((links_path frames path).roles token member).2

theorem inFront_more (more : List (NumberedToken × Segment NumberedToken)) :
    ∀ token ∈ moreTokens frames more, inFront token.role = true := by
  intro token member
  obtain ⟨link, -, member⟩ := List.mem_flatMap.mp member
  rcases List.mem_cons.mp member with rfl | member
  · rfl
  · exact inFront_segment frames link.2 token member

theorem behind_inspected (inspected : List (NumberedToken × Option (Operand NumberedToken))) :
    ∀ token ∈ inspectedTokens frames inspected, behind token.role = true := by
  intro token member
  obtain ⟨⟨question, operand⟩, -, member⟩ := List.mem_flatMap.mp member
  rcases List.mem_cons.mp member with rfl | member
  · rfl
  · cases operand with
    | none => cases member
    | some operand => exact behind_operand frames operand token member

theorem inFront_inherited (target : Segment NumberedToken) (equals : NumberedToken) :
    ∀ token ∈ inheritedTokens frames target equals, inFront token.role = true := by
  unfold inheritedTokens
  split
  · cases frames.findSome? Frame.memberType <;> simp [typeToken, inFront]
  · simp

theorem behind_value {value : RightHandSide NumberedToken}
    (kinds : value.WellKinded NumberedToken.kind) (readable : Readable value.leaves) :
    ∀ token ∈ valueTokens frames value, behind token.role = true := by
  cases value with
  | single operand => exact behind_operand frames operand
  | expression first more =>
    obtain ⟨items, read⟩ := expressionItems_readable none kinds.1 readable
    simp [valueTokens, expressionToken_of_items read, Except.toOption, extractedToken, behind]

end Sides

/-- The tokens of a statement are those in front of an `=`, which may be all, the `=`, and those
behind it. -/
inductive Sided : List AnnotatedToken → Prop where
  | unassigned {tokens : List AnnotatedToken}
      (front : ∀ token ∈ tokens, inFront token.role = true) : Sided tokens
  | assigned {before after : List AnnotatedToken} {assign : AnnotatedToken}
      (front : ∀ token ∈ before, inFront token.role = true) (isAssign : assign.role = .assign)
      (back : ∀ token ∈ after, behind token.role = true) : Sided (before ++ assign :: after)

theorem sided_statement {statement : Statement NumberedToken} (sound : Sound statement)
    (frames : List Frame) : Sided (statementTokens frames statement) := by
  obtain ⟨first, more, binding⟩ := statement
  obtain ⟨⟨-, -, bindingKinds⟩, -, readable⟩ := sound
  have front : ∀ token ∈ segmentTokens frames first ++ moreTokens frames more,
      inFront token.role = true :=
    List.forall_mem_append.mpr ⟨inFront_segment frames first, inFront_more frames more⟩
  cases binding with
  | none =>
    simp only [statementTokens, Option.map_none, Option.getD_none, List.append_nil]
    exact .unassigned front
  | some binding =>
    obtain ⟨isEquals, valueKinds, -⟩ := bindingKinds binding rfl
    have valueReadable := ((Readable.binding isEquals).mp (Readable.append.mp readable).2).1
    simp only [statementTokens, Option.map_some, Option.getD_some, bindingTokens]
    rw [← List.append_assoc]
    exact .assigned (List.forall_mem_append.mpr ⟨front, inFront_inherited frames _ _⟩) rfl
      (List.forall_mem_append.mpr
        ⟨behind_value frames valueKinds valueReadable, behind_inspected frames binding.inspected⟩)

theorem Sided.inner {tokens : List AnnotatedToken} (sided : Sided tokens) :
    ∀ token ∈ tokens, token.role.isBoundary = false := by
  have ofFront {token : AnnotatedToken} (front : inFront token.role = true) :
      token.role.isBoundary = false := by
    cases role : token.role <;> simp_all [inFront, Role.isBoundary]
  have ofBack {token : AnnotatedToken} (back : behind token.role = true) :
      token.role.isBoundary = false := by
    cases role : token.role <;> simp_all [behind, Role.isBoundary]
  cases sided with
  | unassigned front => exact fun token member => ofFront (front token member)
  | assigned front isAssign back =>
    exact List.forall_mem_append.mpr ⟨fun token member => ofFront (front token member),
      List.forall_mem_cons.mpr ⟨by rw [isAssign]; rfl, fun token member => ofBack (back token member)⟩⟩

/-- Every statement of a program has two sides at most. -/
theorem sided_of_reads {blocks : List Block} {tokens : List NumberedToken}
    {written : List AnnotatedToken} (reads : Reads blocks tokens written) :
    ∀ statement ∈ statements written, Sided statement := by
  have append {run rest : List AnnotatedToken} {place : AnnotatedToken} (sided : Sided run)
      (boundary : place.role.isBoundary = true) (later : ∀ statement ∈ statements rest, Sided statement) :
      ∀ statement ∈ statements (run ++ place :: rest), Sided statement := by
    rw [statements_append sided.inner boundary]
    split
    · exact later
    · exact List.forall_mem_cons.mpr ⟨sided, later⟩
  induction reads with
  | finish sound => exact append (sided_statement sound _) rfl (by simp [statements, Statement.collect])
  | newline sound _ _ inductionHypothesis | close sound _ _ inductionHypothesis =>
    exact append (sided_statement sound _) rfl inductionHypothesis
  | open_ _ _ _ inductionHypothesis =>
    exact @append [] _ _ (.unassigned (by simp)) rfl inductionHypothesis

/-- An `=` is the only one of its statement, nothing is looked up in front of it, and no variable
is named behind it. -/
theorem Sided.roles {before after : List AnnotatedToken} {assign : AnnotatedToken}
    (sided : Sided (before ++ assign :: after)) (isAssign : assign.role = .assign) :
    (∀ token ∈ before, token.role ≠ .assign ∧ token.role ≠ .lookup) ∧
      ∀ token ∈ after, token.role ≠ .assign ∧ token.role ≠ .identifier := by
  have ofFront {token : AnnotatedToken} (front : inFront token.role = true) :
      token.role ≠ .assign ∧ token.role ≠ .lookup := by
    cases role : token.role <;> simp_all [inFront]
  have ofBack {token : AnnotatedToken} (back : behind token.role = true) :
      token.role ≠ .assign ∧ token.role ≠ .identifier := by
    cases role : token.role <;> simp_all [behind]
  generalize whole : before ++ assign :: after = tokens at sided
  cases sided with
  | unassigned front =>
    exact absurd isAssign (ofFront (front assign (by simp [← whole]))).1
  | @assigned front back other isFront isOther isBack =>
    rcases places_cases whole with ⟨rfl, rfl, rfl⟩ | ⟨between, rfl, -⟩ | ⟨between, -, rfl⟩
    · exact ⟨fun token member => ofFront (isFront token member),
        fun token member => ofBack (isBack token member)⟩
    · exact absurd isAssign (ofFront (isFront assign (by simp))).1
    · exact absurd isAssign (ofBack (isBack assign (by simp))).1

end ParaLang.Annotations
