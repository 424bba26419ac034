import ParaLang.Proofs.Annotations.Origins
import ParaLang.Proofs.Annotations.Places

/-! # Nothing is lost, doubled or moved

Annotation folds some raw tokens into others: modifiers into the name they follow, the type behind
a colon into the token of the colon, and the header of a block into the token of its brace.  Every
other raw token is written once, in order, with its place, text and kind.  What annotation inserts
has the place of the next token that it does not insert. -/

namespace ParaLang

/-- What a token keeps of its raw token. -/
structure Imprint where
  place : Place
  literal : String
  kind : TokenKind
  /-- The role of a token that others are folded into and that takes its text from them. -/
  gathers : Option Role := none
deriving DecidableEq, Repr

/-- The roles of tokens that take their texts from tokens folded into them. -/
def Role.gathers : Role → Option Role
  | .type => some .type
  | .blockOpen => some .blockOpen
  | _ => none

def AnnotatedToken.imprint (token : AnnotatedToken) : Imprint :=
  ⟨token.place, token.literal, token.kind, token.role.gathers⟩

namespace Annotations

open ParaLang.Grammar

def NumberedToken.imprint (token : NumberedToken) : Imprint :=
  { place := token.place, literal := token.literal, kind := token.kind }

theorem NumberedToken.imprint_inRole (token : NumberedToken) {role : Role}
    (alone : role.gathers = none) : (token.inRole role).imprint = token.imprint := by
  simp only [AnnotatedToken.imprint, role_inRole, alone]
  rfl

/-! ## What is left of raw tokens -/

/-- The name of the first type among some tokens. -/
def firstType (tokens : List NumberedToken) : String :=
  ((tokens.find? (·.kind = .typeName)).map NumberedToken.literal).getD ""

/-- What is left of the tokens of a statement.  Modifiers and types leave nothing by themselves,
and a colon stands for the type behind it. -/
def lineImprints : List NumberedToken → List Imprint
  | [] => []
  | token :: rest =>
    if token.kind.isModifier ∨ token.kind = .typeName then lineImprints rest
    else if token.kind = .colon then
      ⟨token.place, firstType rest, .typeName, some .type⟩ :: lineImprints rest
    else token.imprint :: lineImprints rest

/-- The path that the header of a block names. -/
def headerPath (run : List NumberedToken) : String :=
  formatPath ((run.filter (·.kind = .identifier)).map NumberedToken.literal)

/-- What is left of raw tokens, where `run` is the start of the line at hand.  Of a block and its
header only the brace is left, with the path of the header. -/
def imprints (run : List NumberedToken) : List NumberedToken → List Imprint
  | [] => lineImprints run
  | token :: rest =>
    if inLine token.kind then imprints (run ++ [token]) rest
    else if token.kind = .leftBrace then
      ⟨token.place, headerPath run, .leftBrace, some .blockOpen⟩ :: imprints [] rest
    else lineImprints run ++ token.imprint :: imprints [] rest

section Imprints

variable {token : NumberedToken} {run rest : List NumberedToken}

/-- The kinds of tokens that are written as they stand. -/
def isPlain (kind : TokenKind) : Bool :=
  !kind.isModifier && kind != .typeName && kind != .colon

theorem lineImprints_plain (plain : isPlain token.kind = true) :
    lineImprints (token :: rest) = token.imprint :: lineImprints rest := by
  simp only [isPlain, Bool.and_eq_true, Bool.not_eq_true', bne_iff_ne] at plain
  simp [lineImprints, plain]

theorem lineImprints_modifiers (kinds : Modifiers NumberedToken.kind run) :
    lineImprints (run ++ rest) = lineImprints rest := by
  induction run with
  | nil => rfl
  | cons token run inductionHypothesis =>
    obtain ⟨isModifier, laterKinds⟩ := List.forall_mem_cons.mp kinds
    simp [lineImprints, isModifier, inductionHypothesis laterKinds]

theorem firstType_behind (kinds : Modifiers NumberedToken.kind run)
    (isType : token.kind = .typeName) : firstType (run ++ token :: rest) = token.literal := by
  have none : run.find? (·.kind = .typeName) = none := by
    rw [List.find?_eq_none]
    intro other member
    have isModifier := kinds other member
    cases kind : other.kind <;> simp_all [TokenKind.isModifier]
  simp [firstType, List.find?_append, none, isType]

theorem imprints_line (inside : ∀ token ∈ run, inLine token.kind = true)
    (cuts : inLine token.kind = false) (before : List NumberedToken) :
    imprints before (run ++ token :: rest) =
      if token.kind = .leftBrace then
        ⟨token.place, headerPath (before ++ run), .leftBrace, some .blockOpen⟩ ::
          imprints [] rest
      else lineImprints (before ++ run) ++ token.imprint :: imprints [] rest := by
  induction run generalizing before with
  | nil => simp [imprints, cuts]
  | cons other run inductionHypothesis =>
    obtain ⟨here, later⟩ := List.forall_mem_cons.mp inside
    simp [imprints, here, inductionHypothesis later (before ++ [other])]

/-- What is left stands in the places of raw tokens, in order. -/
theorem places_lineImprints (run : List NumberedToken) :
    ((lineImprints run).map Imprint.place).Sublist (run.map NumberedToken.place) := by
  induction run with
  | nil => exact .slnil
  | cons token run inductionHypothesis =>
    rw [lineImprints]
    split
    · exact inductionHypothesis.cons _
    · split <;> exact inductionHypothesis.cons_cons _

theorem imprints_ending {finish : NumberedToken} (isEnd : finish.kind = .endOfInput)
    (run tokens : List NumberedToken) :
    ∃ left, imprints run (tokens ++ [finish]) = left ++ [finish.imprint] ∧
      (left.map Imprint.place).Sublist ((run ++ tokens).map NumberedToken.place) := by
  induction tokens generalizing run with
  | nil =>
    refine ⟨lineImprints run, ?_, by simpa using places_lineImprints run⟩
    simp [imprints, isEnd, inLine, lineImprints]
  | cons token tokens inductionHypothesis =>
    rw [List.cons_append, imprints]
    split
    · simpa using inductionHypothesis (run ++ [token])
    · obtain ⟨left, ends, places⟩ := inductionHypothesis []
      rw [ends]
      split
      · refine ⟨⟨token.place, headerPath run, .leftBrace, some .blockOpen⟩ :: left, rfl, ?_⟩
        rw [List.map_append]
        exact (places.cons_cons token.place).trans (List.sublist_append_right _ _)
      · refine ⟨lineImprints run ++ token.imprint :: left, by simp, ?_⟩
        rw [List.map_append, List.map_append]
        exact (places_lineImprints run).append (places.cons_cons token.place)

end Imprints

/-! ## What is written for raw tokens -/

/-- Annotated tokens with the items of each expression in its place. -/
def spread (written : List AnnotatedToken) : List AnnotatedToken :=
  written.flatMap fun token =>
    if token.role = .expression then token.expression.getD [] else [token]

/-- The annotated tokens that are not inserted, with those of each expression in its place. -/
def originals (written : List AnnotatedToken) : List AnnotatedToken :=
  (spread written).filter (!·.synthetic)

/-- Each inserted token has the place of the next token that is not inserted, which for an inserted
type is the `=`. -/
def Attached : List AnnotatedToken → Prop
  | [] => True
  | token :: rest =>
    (token.synthetic = true → ∃ next, rest.find? (!·.synthetic) = some next ∧
      next.place = token.place ∧ (token.role = .type → next.role = .assign)) ∧ Attached rest

section Written

variable {written more : List AnnotatedToken} {token : AnnotatedToken}

@[simp] theorem spread_append : spread (written ++ more) = spread written ++ spread more :=
  List.flatMap_append ..

theorem spread_cons (single : token.role ≠ .expression) :
    spread (token :: written) = token :: spread written := by
  simp [spread, single]

@[simp] theorem originals_append :
    originals (written ++ more) = originals written ++ originals more := by
  simp [originals]

theorem originals_cons (single : token.role ≠ .expression) (original : token.synthetic = false) :
    originals (token :: written) = token :: originals written := by
  simp [originals, spread_cons single, original]

theorem Attached.append (first : Attached written) (later : Attached more) :
    Attached (written ++ more) := by
  induction written with
  | nil => exact later
  | cons token written inductionHypothesis =>
    refine ⟨fun inserted => ?_, inductionHypothesis first.2⟩
    obtain ⟨next, found, place⟩ := first.1 inserted
    exact ⟨next, by simp [List.find?_append, found], place⟩

theorem Attached.cons (original : token.synthetic = false) (later : Attached written) :
    Attached (token :: written) :=
  ⟨fun inserted => (Bool.false_ne_true (original ▸ inserted)).elim, later⟩

/-- A token that is inserted in front of another one, at its place. -/
structure InsertedBefore (next inserted : AnnotatedToken) : Prop where
  single : inserted.role ≠ .expression
  synthetic : inserted.synthetic = true
  place : next.place = inserted.place
  type : inserted.role = .type → next.role = .assign

/-- Tokens may be inserted in front of one that is not. -/
theorem Attached.insert (later : Attached (token :: written)) (original : token.synthetic = false)
    {front : List AnnotatedToken} (fits : ∀ inserted ∈ front, InsertedBefore token inserted) :
    Attached (front ++ token :: written) := by
  induction front with
  | nil => exact later
  | cons inserted front inductionHypothesis =>
    obtain ⟨first, frontFits⟩ := List.forall_mem_cons.mp fits
    refine ⟨fun _ => ⟨token, ?_, first.place, first.type⟩, inductionHypothesis frontFits⟩
    have none : front.find? (!·.synthetic) = none := by
      rw [List.find?_eq_none]
      intro other member
      simp [(frontFits other member).synthetic]
    simp [List.find?_append, none, original]

end Written

/-! ## Statements -/

/-- Some raw tokens of a statement are written as some annotated tokens, and nothing is lost,
doubled or moved. -/
structure Keeps (leaves : List NumberedToken) (written : List AnnotatedToken) : Prop where
  imprints : ∀ rest, lineImprints (leaves ++ rest) =
    (originals written).map AnnotatedToken.imprint ++ lineImprints rest
  attached : Attached (spread written)

section Statements

variable {leaves others : List NumberedToken} {written more : List AnnotatedToken}
  {frames : List Frame}

theorem keeps_nil : Keeps [] [] :=
  ⟨fun _ => rfl, trivial⟩

theorem Keeps.append (keeps : Keeps leaves written) (later : Keeps others more) :
    Keeps (leaves ++ others) (written ++ more) where
  imprints rest := by
    rw [List.append_assoc, keeps.imprints, later.imprints]
    simp
  attached := by
    rw [spread_append]
    exact keeps.attached.append later.attached

theorem keeps_flatMap {α : Type} {parts : List α} {leavesOf : α → List NumberedToken}
    {tokensOf : α → List AnnotatedToken}
    (keeps : ∀ part ∈ parts, Keeps (leavesOf part) (tokensOf part)) :
    Keeps (parts.flatMap leavesOf) (parts.flatMap tokensOf) := by
  induction parts with
  | nil => exact keeps_nil
  | cons part parts inductionHypothesis =>
    obtain ⟨first, later⟩ := List.forall_mem_cons.mp keeps
    exact first.append (inductionHypothesis later)

/-- An annotated token that stands for a plain raw token. -/
structure StandsFor (leaf : NumberedToken) (token : AnnotatedToken) : Prop where
  plain : isPlain leaf.kind = true
  single : token.role ≠ .expression
  original : token.synthetic = false
  imprint : token.imprint = leaf.imprint

theorem StandsFor.place {leaf : NumberedToken} {token : AnnotatedToken}
    (stands : StandsFor leaf token) : token.place = leaf.place :=
  congrArg Imprint.place stands.imprint

theorem StandsFor.cons {leaf : NumberedToken} {token : AnnotatedToken}
    (stands : StandsFor leaf token) (later : Keeps others more) :
    Keeps (leaf :: others) (token :: more) where
  imprints rest := by
    rw [List.cons_append, lineImprints_plain stands.plain, later.imprints,
      originals_cons stands.single stands.original, List.map_cons, stands.imprint]
    rfl
  attached := by
    rw [spread_cons stands.single]
    exact .cons stands.original later.attached

theorem standsFor_inRole {leaf : NumberedToken} {role : Role}
    (fits : plays leaf.kind role = true) : StandsFor leaf (leaf.inRole role) := by
  have ordinary : isPlain leaf.kind = true ∧ role ≠ .expression ∧ role.gathers = none := by
    unfold plays at fits
    split at fits <;> simp_all [isPlain, TokenKind.isModifier, Role.gathers]
  exact ⟨ordinary.1, ordinary.2.1, rfl, leaf.imprint_inRole ordinary.2.2⟩

theorem isPlain_of_literal {kind : TokenKind} (isLiteral : kind.isLiteral = true) :
    isPlain kind = true := by
  cases kind <;> simp_all [TokenKind.isLiteral, isPlain, TokenKind.isModifier]

theorem standsFor_literal {leaf : NumberedToken} (isLiteral : leaf.kind.isLiteral = true) :
    StandsFor leaf (readLiteralToken leaf) :=
  ⟨isPlain_of_literal isLiteral, by simp [readLiteralToken], rfl, rfl⟩

/-- Tokens are inserted in front of a token of the same place. -/
theorem Keeps.insert {next : AnnotatedToken} (keeps : Keeps leaves (next :: written))
    (single : next.role ≠ .expression) (original : next.synthetic = false)
    {front : List AnnotatedToken} (fits : ∀ inserted ∈ front, InsertedBefore next inserted) :
    Keeps leaves (front ++ next :: written) := by
  have whole : spread front = front := by
    clear keeps
    induction front with
    | nil => rfl
    | cons inserted front inductionHypothesis =>
      obtain ⟨first, frontFits⟩ := List.forall_mem_cons.mp fits
      rw [spread_cons first.single, inductionHypothesis frontFits]
  have none : originals front = [] := by
    rw [originals, whole, List.filter_eq_nil_iff]
    intro inserted member
    simp [(fits inserted member).synthetic]
  refine ⟨fun rest => ?_, ?_⟩
  · rw [originals_append, none, keeps.imprints]
    rfl
  · have attached := keeps.attached
    rw [spread_cons single] at attached
    rw [spread_append, whole, spread_cons single]
    exact attached.insert original fits

/-! ### Paths -/

theorem insertedBefore_spliced {place : NumberedToken} {next : AnnotatedToken}
    (same : next.place = place.place) :
    ∀ inserted ∈ spliced frames place, InsertedBefore next inserted := by
  intro inserted member
  obtain ⟨frame, -, member⟩ := List.mem_flatMap.mp member
  simp only [List.mem_cons, List.not_mem_nil, or_false] at member
  rcases member with rfl | rfl <;> exact ⟨by simp, rfl, same, by simp⟩

theorem keeps_path {path : Path NumberedToken} (kinds : path.WellKinded NumberedToken.kind)
    {last : AnnotatedToken} (stands : StandsFor path.last last) :
    Keeps path.leaves (pathTokens frames path last) := by
  obtain ⟨outer, name⟩ := path
  have link {name arrow : NumberedToken} (isName : name.kind = .identifier)
      (isArrow : arrow.kind = .arrow) {others : List NumberedToken} {more : List AnnotatedToken}
      (later : Keeps others more) :
      Keeps (name :: arrow :: others) (name.inRole .group :: arrow.inRole .arrow :: more) :=
    (standsFor_inRole (by rw [isName]; rfl)).cons
      ((standsFor_inRole (by rw [isArrow]; rfl)).cons later)
  have links (outer : List (NumberedToken × NumberedToken))
      (kinds : ∀ link ∈ outer, link.1.kind = .identifier ∧ link.2.kind = .arrow) :
      Keeps (outer.flatMap fun link => [link.1, link.2]) (linkTokens outer) :=
    keeps_flatMap fun part member => link (kinds part member).1 (kinds part member).2 keeps_nil
  have alone : Keeps [name] [last] := stands.cons keeps_nil
  simp only [pathTokens, Path.leaves, Path.first]
  cases outer with
  | nil =>
    simpa [linkTokens] using alone.insert stands.single stands.original
      (@insertedBefore_spliced frames name last stands.place)
  | cons first outer =>
    obtain ⟨isName, isArrow⟩ := kinds.1 first (by simp)
    have later := (links outer fun part member => kinds.1 part (by simp [member])).append alone
    simpa [linkTokens] using (link isName isArrow later).insert (by simp) rfl
      (@insertedBefore_spliced frames first.1 (first.1.inRole .group) rfl)

/-! ### Segments and operands -/

theorem keeps_clause {clause : TypeClause NumberedToken}
    (kinds : clause.WellKinded NumberedToken.kind) :
    Keeps clause.leaves [typeToken clause.colon clause.type.literal] := by
  obtain ⟨colon, before, type, after⟩ := clause
  obtain ⟨isColon, beforeKinds, isType, afterKinds⟩ := kinds
  simp only at isColon beforeKinds isType afterKinds
  refine ⟨fun rest => ?_, .cons rfl trivial⟩
  have behind : lineImprints (before ++ type :: (after ++ rest)) = lineImprints rest := by
    rw [lineImprints_modifiers beforeKinds]
    simp [lineImprints, isType, lineImprints_modifiers afterKinds]
  simp only [TypeClause.leaves, List.cons_append, List.append_assoc]
  rw [lineImprints, firstType_behind beforeKinds isType, behind]
  simp [isColon, TokenKind.isModifier]
  rfl

theorem standsFor_name {leaf : NumberedToken} (isName : leaf.kind = .identifier)
    (modifiers : List NumberedToken) :
    StandsFor leaf (withModifiers modifiers (leaf.inRole .identifier)) := by
  rw [withModifiers_eq]
  exact ⟨by rw [isName]; rfl, by simp, rfl, rfl⟩

theorem keeps_definition {definition : Definition NumberedToken}
    (kinds : definition.WellKinded NumberedToken.kind) :
    Keeps definition.leaves (definitionTokens frames definition) := by
  obtain ⟨path, modifiers, clause⟩ := definition
  obtain ⟨pathKinds, modifierKinds, clauseKinds⟩ := kinds
  have folded : Keeps modifiers [] := ⟨fun rest => lineImprints_modifiers modifierKinds, trivial⟩
  have name := standsFor_name pathKinds.2 (Definition.allModifiers ⟨path, modifiers, clause⟩)
  have named := (@keeps_path frames path pathKinds _ name).append folded
  rw [List.append_nil] at named
  refine named.append ?_
  cases clause with
  | none => exact keeps_nil
  | some clause => exact keeps_clause (clauseKinds clause rfl)

theorem keeps_segment {segment : Segment NumberedToken}
    (kinds : segment.WellKinded NumberedToken.kind) :
    Keeps segment.leaves (segmentTokens frames segment) := by
  cases segment with
  | empty => exact keeps_nil
  | literal token => exact (standsFor_literal kinds).cons keeps_nil
  | name definition => exact keeps_definition kinds

theorem keeps_operand {operand : Operand NumberedToken}
    (kinds : operand.WellKinded NumberedToken.kind) :
    Keeps operand.leaves (operandTokens frames operand) := by
  cases operand with
  | literal token => exact (standsFor_literal kinds).cons keeps_nil
  | reference path =>
    have isName : path.last.kind = .identifier := kinds.2
    exact keeps_path kinds (standsFor_inRole (by rw [isName]; rfl))

/-! ### Expressions -/

theorem isPlain_of_inExpression {kind : TokenKind} (belongs : inExpression kind = true) :
    isPlain kind = true := by
  cases kind <;> simp_all [inExpression, TokenKind.isLiteral, TokenKind.isOperator, isPlain,
    TokenKind.isModifier]

theorem gathers_itemRole (kind : TokenKind) : (itemRole kind).gathers = none := by
  cases kind <;> rfl

theorem original_expressionItem {token : NumberedToken} {item : AnnotatedToken}
    (read : expressionItem token = .ok item) :
    item.synthetic = false ∧ item.imprint = token.imprint := by
  rcases expressionItem_eq_ok_iff.mp read with ⟨-, _, -, rfl⟩ | ⟨-, -, rfl⟩
  · exact ⟨rfl, rfl⟩
  · exact ⟨rfl, token.imprint_inRole (gathers_itemRole _)⟩

/-- Multiplications are inserted in front of the items that they have their places from. -/
theorem items_keep {previous : Option Role} {tokens : List NumberedToken}
    {items : List AnnotatedToken} (read : expressionItems previous tokens = .ok items) :
    (items.filter (!·.synthetic)).map AnnotatedToken.imprint =
        tokens.map NumberedToken.imprint ∧
      Attached items := by
  induction tokens generalizing previous items with
  | nil =>
    cases read
    exact ⟨rfl, trivial⟩
  | cons token tokens inductionHypothesis =>
    simp only [expressionItems, Result.bind_eq_ok_iff] at read
    obtain ⟨item, itemRead, later, laterRead, equal⟩ := read
    obtain ⟨original, same⟩ := original_expressionItem itemRead
    obtain ⟨imprints, attached⟩ := inductionHypothesis laterRead
    have withItem : Attached (item :: later) := .cons original attached
    split at equal <;> cases equal
    · refine ⟨?_, @Attached.insert _ _ withItem original [insertedStar item] ?_⟩
      · simp [original, same, imprints, show (insertedStar item).synthetic = true from rfl]
      · exact List.forall_mem_singleton.mpr ⟨by simp [insertedStar], rfl, rfl, by simp [insertedStar]⟩
    · exact ⟨by simp [original, same, imprints], withItem⟩

theorem lineImprints_run {run : List NumberedToken}
    (plain : ∀ token ∈ run, isPlain token.kind = true) (rest : List NumberedToken) :
    lineImprints (run ++ rest) = run.map NumberedToken.imprint ++ lineImprints rest := by
  induction run with
  | nil => rfl
  | cons token run inductionHypothesis =>
    obtain ⟨first, later⟩ := List.forall_mem_cons.mp plain
    rw [List.cons_append, lineImprints_plain first, inductionHypothesis later]
    rfl

theorem keeps_value {value : RightHandSide NumberedToken}
    (kinds : value.WellKinded NumberedToken.kind) (readable : Readable value.leaves) :
    Keeps value.leaves (valueTokens frames value) := by
  cases value with
  | single operand => exact keeps_operand kinds
  | expression first more =>
    obtain ⟨items, read⟩ := expressionItems_readable none kinds.1 readable
    obtain ⟨same, attached⟩ := items_keep read
    have spreads : spread (valueTokens frames (.expression first more)) = items := by
      simp [valueTokens, expressionToken_of_items read, Except.toOption, spread, extractedToken]
    refine ⟨fun rest => ?_, by rwa [spreads]⟩
    rw [originals, spreads, same]
    exact lineImprints_run (fun token member => isPlain_of_inExpression (kinds.1 token member)) rest

/-! ### Whole statements -/

theorem keeps_questions {Part : Type} {parts : List (NumberedToken × Part)}
    {leavesOf : Part → List NumberedToken} {tokensOf : Part → List AnnotatedToken}
    (keeps : ∀ link ∈ parts, link.1.kind = .question ∧ Keeps (leavesOf link.2) (tokensOf link.2)) :
    Keeps (parts.flatMap fun (question, part) => question :: leavesOf part)
      (parts.flatMap fun (question, part) => question.inRole .inspect :: tokensOf part) := by
  refine keeps_flatMap fun link member => ?_
  obtain ⟨isQuestion, keeps⟩ := keeps link member
  exact (standsFor_inRole (by rw [isQuestion]; rfl)).cons keeps

theorem keeps_binding {binding : Binding NumberedToken} (target : Segment NumberedToken)
    (kinds : binding.WellKinded NumberedToken.kind) (readable : Readable binding.leaves) :
    Keeps binding.leaves (bindingTokens frames target binding) := by
  obtain ⟨equals, value, inspected⟩ := binding
  obtain ⟨isEquals, valueKinds, inspectedKinds⟩ := kinds
  simp only at isEquals
  have valueReadable : Readable value.leaves := fun token member =>
    readable token (by simp [Binding.leaves, member])
  have questions : Keeps (inspectedLeaves inspected) (inspectedTokens frames inspected) := by
    refine @keeps_questions _ inspected (fun operand => (operand.map Operand.leaves).getD [])
      (fun operand => (operand.map (operandTokens frames)).getD []) fun link member => ?_
    obtain ⟨question, operand⟩ := link
    obtain ⟨isQuestion, operandKinds⟩ := inspectedKinds _ member
    refine ⟨isQuestion, ?_⟩
    cases operand with
    | none => exact keeps_nil
    | some operand => exact keeps_operand (operandKinds operand rfl)
  have assigned : StandsFor equals (equals.inRole .assign) :=
    standsFor_inRole (by rw [isEquals]; rfl)
  refine (assigned.cons ((keeps_value valueKinds valueReadable).append questions)).insert
    assigned.single rfl fun inserted member => ?_
  unfold inheritedTokens at member
  split at member
  · obtain ⟨type, -, rfl⟩ := List.mem_map.mp member
    exact ⟨by simp [typeToken], rfl, rfl, fun _ => rfl⟩
  · cases member

theorem keeps_statement {statement : Statement NumberedToken} (sound : Sound statement) :
    Keeps statement.leaves (statementTokens frames statement) := by
  obtain ⟨first, more, binding⟩ := statement
  obtain ⟨⟨firstKinds, moreKinds, bindingKinds⟩, -, readable⟩ := sound
  have segments : Keeps (segmentLeaves more) (moreTokens frames more) :=
    keeps_questions fun link member =>
      ⟨(moreKinds link member).1, keeps_segment (moreKinds link member).2⟩
  refine ((keeps_segment firstKinds).append segments).append ?_
  cases binding with
  | none => exact keeps_nil
  | some binding =>
    exact keeps_binding _ (bindingKinds binding rfl) (Readable.append.mp readable).2

end Statements

/-! ## Programs -/

theorem headerPath_header {header : Header NumberedToken}
    (kinds : header.WellKinded NumberedToken.kind) :
    headerPath header.leaves = formatPath (blockOf header).names.reverse := by
  obtain ⟨⟨outer, last⟩, arrow, memberType⟩ := header
  obtain ⟨⟨links, isName⟩, isArrow, typeKinds⟩ := kinds
  simp only at links isName isArrow typeKinds
  have outerNames : (outer.flatMap fun link => [link.1, link.2]).filter
      (·.kind = .identifier) = outer.map Prod.fst := by
    induction outer with
    | nil => rfl
    | cons link outer inductionHypothesis =>
      obtain ⟨linkName, linkArrow⟩ := links link (by simp)
      have later := inductionHypothesis fun link member => links link (by simp [member])
      simp [linkName, linkArrow, later]
  have typeNames : ((memberType.map fun link => [link.1, link.2]).getD []).filter
      (·.kind = .identifier) = [] := by
    cases memberType with
    | none => rfl
    | some link =>
      obtain ⟨isColon, isType⟩ := typeKinds link rfl
      simp [isColon, isType]
  have leaves : Header.leaves ⟨⟨outer, last⟩, arrow, memberType⟩ =
      (outer.flatMap fun link => [link.1, link.2]) ++ [last] ++
        arrow :: (memberType.map fun link => [link.1, link.2]).getD [] := rfl
  simp [headerPath, leaves, outerNames, typeNames, isName, isArrow, blockOf, Block.names,
    Function.comp_def]

theorem imprint_blockToken {brace : NumberedToken} (isBrace : brace.kind = .leftBrace)
    (block : Block) :
    (blockToken block brace).imprint =
      ⟨brace.place, formatPath block.names.reverse, .leftBrace, some .blockOpen⟩ := by
  rw [← isBrace]
  rfl

theorem mem_dropLast_behind {α : Type} {front rest : List α} {place member : α}
    (inside : member ∈ rest.dropLast) : member ∈ (front ++ place :: rest).dropLast := by
  have nonempty : rest ≠ [] := by
    rintro rfl
    cases inside
  rw [List.dropLast_append_of_ne_nil (by simp), List.dropLast_cons_of_ne_nil nonempty]
  simp [inside]

/-- The lines of a text are written, and nothing is lost, doubled or moved. -/
structure KeepsLines (tokens : List NumberedToken) (written : List AnnotatedToken) : Prop where
  imprints : (originals written).map AnnotatedToken.imprint = imprints [] tokens
  attached : Attached (spread written)

section Lines

variable {place : NumberedToken} {rest : List NumberedToken} {output : List AnnotatedToken}

/-- A statement and the token that ends its line come before further lines. -/
theorem KeepsLines.statement (later : KeepsLines rest output) {frames : List Frame}
    {statement : Statement NumberedToken} (sound : Sound statement)
    (cuts : inLine place.kind = false) (noBrace : place.kind ≠ .leftBrace) {role : Role}
    (single : role ≠ .expression) (alone : role.gathers = none) :
    KeepsLines (statement.leaves ++ place :: rest)
      (statementTokens frames statement ++ place.inRole role :: output) := by
  have keeps := @keeps_statement frames statement sound
  have whole := keeps.imprints []
  simp only [List.append_nil, lineImprints] at whole
  have written : spread (place.inRole role :: output) = place.inRole role :: spread output :=
    spread_cons single
  refine ⟨?_, ?_⟩
  · rw [imprints_line (Statement.inLine sound.kinds) cuts, if_neg noBrace, List.nil_append, whole,
      originals_append, originals_cons single rfl, List.map_append, List.map_cons, later.imprints,
      place.imprint_inRole alone]
  · rw [spread_append, written]
    exact keeps.attached.append (.cons rfl later.attached)

/-- A header and its brace come before further lines. -/
theorem KeepsLines.header (later : KeepsLines rest output) {header : Header NumberedToken}
    (kinds : header.WellKinded NumberedToken.kind) (isBrace : place.kind = .leftBrace) :
    KeepsLines (header.leaves ++ place :: rest) (blockToken (blockOf header) place :: output) := by
  have single : (blockToken (blockOf header) place).role ≠ .expression := by simp [blockToken]
  refine ⟨?_, ?_⟩
  · rw [imprints_line (Header.inLine kinds) (by rw [isBrace]; rfl), if_pos isBrace,
      originals_cons single rfl, List.map_cons, later.imprints, List.nil_append,
      headerPath_header kinds, imprint_blockToken isBrace]
  · rw [spread_cons single]
    exact .cons rfl later.attached

end Lines

/-- Annotation keeps a program whose only end of input is its last token. -/
theorem keepsLines_of_reads {blocks : List Block} {tokens : List NumberedToken}
    {written : List AnnotatedToken} (reads : Reads blocks tokens written)
    (once : ∀ token ∈ tokens.dropLast, token.kind ≠ .endOfInput) : KeepsLines tokens written := by
  induction reads with
  | @finish statement place rest sound isEnd =>
    obtain rfl : rest = [] := by
      by_contra nonempty
      refine once place ?_ isEnd
      rw [List.dropLast_append_of_ne_nil (by simp), List.dropLast_cons_of_ne_nil nonempty]
      simp
    have nothing : KeepsLines [] [] := ⟨rfl, trivial⟩
    exact nothing.statement sound (by rw [isEnd]; rfl) (by simp [isEnd]) (by simp) rfl
  | newline sound isNewline _ inductionHypothesis =>
    have later := inductionHypothesis fun token member => once token (mem_dropLast_behind member)
    exact later.statement sound (by rw [isNewline]; rfl) (by simp [isNewline]) (by simp) rfl
  | close sound isBrace _ inductionHypothesis =>
    have later := inductionHypothesis fun token member => once token (mem_dropLast_behind member)
    exact later.statement sound (by rw [isBrace]; rfl) (by simp [isBrace]) (by simp) rfl
  | open_ kinds isBrace _ inductionHypothesis =>
    have later := inductionHypothesis fun token member => once token (mem_dropLast_behind member)
    exact later.header kinds isBrace

/-- Annotation of a text loses, doubles and moves nothing: what is not inserted is what is left of
the raw tokens, in order; their places grow up to the end of the input; and what is inserted has the
place of the next token that is not. -/
theorem annotate_keeps {source : String} {tokens : List Token} {written : List AnnotatedToken}
    (read : Token.tokenize source = .ok tokens) (annotated : annotate tokens = .ok written) :
    (originals written).map AnnotatedToken.imprint =
        imprints [] (NumberedToken.ofTokens 0 tokens) ∧
      ((NumberedToken.ofTokens 0 tokens).dropLast.map NumberedToken.place).Pairwise Place.Before ∧
      ((originals written).dropLast.map AnnotatedToken.place).Pairwise Place.Before ∧
      (originals written).getLast?.map AnnotatedToken.kind = some .endOfInput ∧
      Attached (spread written) := by
  have rising := Token.rising_of_tokenize read
  obtain ⟨before, finish, rfl, isEnd, only⟩ := Token.endsOnce_of_tokenize read
  obtain ⟨-, reads⟩ := annotate_eq_ok_iff.mp annotated
  have numbered : NumberedToken.ofTokens 0 (before ++ [finish]) =
      NumberedToken.ofTokens 0 before ++ [⟨finish, NumberedToken.countAfter 0 before + 1⟩] :=
    NumberedToken.ofTokens_append ..
  rw [List.dropLast_concat] at rising
  rw [numbered] at reads ⊢
  rw [List.dropLast_concat]
  have grows := NumberedToken.places_ofTokens rising 0
  have once : ∀ token ∈ NumberedToken.ofTokens 0 before, token.kind ≠ .endOfInput :=
    fun token member => only _ (NumberedToken.token_mem_of_mem member)
  obtain ⟨same, attached⟩ := keepsLines_of_reads reads (by rwa [List.dropLast_concat])
  obtain ⟨left, ends, places⟩ := @imprints_ending
    ⟨finish, NumberedToken.countAfter 0 before + 1⟩ isEnd [] (NumberedToken.ofTokens 0 before)
  rw [ends] at same ⊢
  have front : (originals written).dropLast.map AnnotatedToken.imprint = left := by
    rw [List.map_dropLast, same, List.dropLast_concat]
  have last := congrArg (fun imprints => imprints.getLast?.map Imprint.kind) same
  simp only [List.getLast?_map, Option.map_map, List.getLast?_concat] at last
  refine ⟨same, grows, ?_, last.trans (congrArg some isEnd), attached⟩
  -- the kept places are among those of the raw tokens, in the same order
  have image : (originals written).dropLast.map AnnotatedToken.place = left.map Imprint.place := by
    rw [← front, List.map_map]
    rfl
  rw [image]
  exact grows.sublist places

/-- A typed block whose member takes the type of the block, the path of the block in front of its
name and a multiplication in its value. -/
theorem annotate_keeps_member :
    let tokens : List Token := [⟨.identifier, "g", 1, 1⟩, ⟨.arrow, "->", 1, 2⟩, ⟨.colon, ":", 1, 4⟩,
      ⟨.typeName, "int", 1, 5⟩, ⟨.leftBrace, "\x7b", 1, 8⟩, ⟨.identifier, "a", 1, 9⟩,
      ⟨.equals, "=", 1, 10⟩, ⟨.int, "2", 1, 11⟩, ⟨.leftParen, "(", 1, 12⟩,
      ⟨.identifier, "b", 1, 13⟩, ⟨.rightParen, ")", 1, 14⟩, ⟨.rightBrace, "\x7d", 1, 15⟩,
      ⟨.endOfInput, "", 1, 16⟩]
    ∃ written, Token.tokenize "g->:int\x7ba=2(b)\x7d" = .ok tokens ∧
      annotate tokens = .ok written ∧
      (spread written).map (fun token => (token.number, token.literal, token.synthetic)) =
        [(5, "g", false), (6, "g", true), (6, "->", true), (6, "a", false), (7, "int", true),
          (7, "=", false), (8, "2", false), (9, "*", true), (9, "(", false), (10, "b", false),
          (11, ")", false), (12, "\x7d", false), (13, "", false)] ∧
      (originals written).map AnnotatedToken.imprint =
        imprints [] (NumberedToken.ofTokens 0 tokens) ∧
      ((NumberedToken.ofTokens 0 tokens).dropLast.map NumberedToken.place).Pairwise Place.Before ∧
      ((originals written).dropLast.map AnnotatedToken.place).Pairwise Place.Before ∧
      (originals written).getLast?.map AnnotatedToken.kind = some .endOfInput ∧
      Attached (spread written) := by
  intro tokens
  have name : Lexeme.scan "g->:int\x7ba=2(b)\x7d".toList =
      some (.name, ['g'], "->:int\x7ba=2(b)\x7d".toList) := rfl
  have arrow : Lexeme.scan "->:int\x7ba=2(b)\x7d".toList =
      some (.arrow, "->".toList, ":int\x7ba=2(b)\x7d".toList) := rfl
  have colon : Lexeme.scan ":int\x7ba=2(b)\x7d".toList =
      some (.symbol ':', [':'], "int\x7ba=2(b)\x7d".toList) := rfl
  have type : Lexeme.scan "int\x7ba=2(b)\x7d".toList =
      some (.name, "int".toList, "\x7ba=2(b)\x7d".toList) := rfl
  have opened : Lexeme.scan "\x7ba=2(b)\x7d".toList =
      some (.symbol '\x7b', ['\x7b'], "a=2(b)\x7d".toList) := rfl
  have member : Lexeme.scan "a=2(b)\x7d".toList = some (.name, ['a'], "=2(b)\x7d".toList) := rfl
  have equals : Lexeme.scan "=2(b)\x7d".toList =
      some (.symbol '=', ['='], "2(b)\x7d".toList) := rfl
  have two : Lexeme.scan "2(b)\x7d".toList = some (.number, ['2'], "(b)\x7d".toList) := rfl
  have left : Lexeme.scan "(b)\x7d".toList = some (.symbol '(', ['('], "b)\x7d".toList) := rfl
  have reference : Lexeme.scan "b)\x7d".toList = some (.name, ['b'], ")\x7d".toList) := rfl
  have right : Lexeme.scan ")\x7d".toList = some (.symbol ')', [')'], "\x7d".toList) := rfl
  have closed : Lexeme.scan "\x7d".toList = some (.symbol '\x7d', ['\x7d'], []) := rfl
  have read : Token.tokenize "g->:int\x7ba=2(b)\x7d" = .ok tokens := by
    rw [Token.tokenize, Lexeme.cut_scanned name, Lexeme.cut_scanned arrow,
      Lexeme.cut_scanned colon, Lexeme.cut_scanned type, Lexeme.cut_scanned opened,
      Lexeme.cut_scanned member, Lexeme.cut_scanned equals, Lexeme.cut_scanned two,
      Lexeme.cut_scanned left, Lexeme.cut_scanned reference, Lexeme.cut_scanned right,
      Lexeme.cut_scanned closed, Lexeme.cut_nil]
    rfl
  exact ⟨_, read, rfl, rfl, annotate_keeps read rfl⟩

end Annotations

end ParaLang
