import Mathlib.Data.List.TakeWhile
import ParaLang.Proofs.Annotations.Lines
import ParaLang.Proofs.Annotations.Renumbering

/-! # Programs without blocks

A block is shorthand: its lines could as well stand outside, with the names of the block in front
of every path and its type in front of every `=` that misses one.  This module writes a program
that way, on tokens and on trees, and shows that the two agree. -/

namespace ParaLang.Annotations

open ParaLang.Grammar

/-! ## Tokens -/

/-- The names of the open blocks, outermost first, and the type they give to their members. -/
structure Surroundings where
  names : List String
  memberType : Option String

/-- `name ->`, in the place of another token. -/
def nameLink (place : Token) (name : String) : Token × Token :=
  ({ place with kind := .identifier, literal := name },
    { place with kind := .arrow, literal := "->" })

/-- `: type`, in the place of another token. -/
def typeLink (place : Token) (type : String) : Token × Token :=
  ({ place with kind := .colon, literal := ":" },
    { place with kind := .typeName, literal := type })

/-- Puts the names in front of every path; `linked` tells whether the token before is an arrow. -/
def qualify (names : List String) (linked : Bool) : List Token → List Token
  | [] => []
  | token :: rest =>
    (if token.kind = .identifier ∧ linked = false then
      names.flatMap fun name => [(nameLink token name).1, (nameLink token name).2] else []) ++
    token :: qualify names (token.kind == .arrow) rest

/-- A right-hand side with its paths qualified, unless it is extracted as an expression. -/
def qualifyValue (names : List String) (run : List Token) : List Token :=
  if run.any (isArithmetic ·.kind) then run else qualify names false run

/-- The type that an `=` takes over from the blocks around it: its segment, which starts after the
last question mark, has a name and no type. -/
def inheritedType? (memberType : Option String) (before : List Token) : Option String :=
  let segment := before.reverse.takeWhile (·.kind != .question)
  if segment.any (·.kind == .identifier) && !segment.any (·.kind == .typeName) then memberType
  else none

/-- A statement as it is written outside of blocks. -/
def qualifyRun (around : Surroundings) (run : List Token) : List Token :=
  let before := run.takeWhile (·.kind != .equals)
  match run.dropWhile (·.kind != .equals) with
  | [] => qualify around.names false before
  | equals :: after =>
    qualify around.names false before ++
      ((inheritedType? around.memberType before).toList.flatMap fun type =>
        [(typeLink equals type).1, (typeLink equals type).2]) ++
      equals :: (qualifyValue around.names (after.takeWhile (·.kind != .question)) ++
        qualify around.names false (after.dropWhile (·.kind != .question)))

/-- What the header of a block adds to the surroundings of its members. -/
def Surroundings.enter (around : Surroundings) (header : List Token) : Surroundings where
  names := around.names ++ (header.filter (·.kind == .identifier)).map Token.literal
  memberType :=
    ((header.find? (·.kind == .typeName)).map Token.literal).or around.memberType

def lineEnd (place : Token) : Token :=
  { place with kind := .newline, literal := "\n" }

/-- Writes lines without blocks.  The surroundings of the open blocks are given from the inside
out, those of the whole program last. -/
def unfoldLines (around : Surroundings) (outer : List Surroundings) : List Line → List Token
  | [] => []
  | ⟨run, boundary⟩ :: rest =>
    match boundary.kind with
    | .leftBrace => lineEnd boundary :: unfoldLines (around.enter run) (around :: outer) rest
    | .rightBrace =>
      qualifyRun around run ++ lineEnd boundary ::
        unfoldLines (outer.headD around) outer.tail rest
    | _ => qualifyRun around run ++ boundary :: unfoldLines around outer rest

/-- A program in which every header and every closing brace is replaced by a line end and every
line says by itself what the blocks around it have said. -/
def withoutBlocks (tokens : List Token) : List Token :=
  unfoldLines ⟨[], none⟩ [] (lines [] tokens)

/-! ## Trees -/

section Trees

variable (names : List String)

def qualifiedPath (path : Path Token) : Path Token :=
  ⟨names.map (nameLink path.first) ++ path.outer, path.last⟩

def qualifiedDefinition (definition : Definition Token) : Definition Token :=
  { definition with path := qualifiedPath names definition.path }

def qualifiedSegment : Segment Token → Segment Token
  | .name definition => .name (qualifiedDefinition names definition)
  | segment => segment

def qualifiedOperand : Operand Token → Operand Token
  | .reference path => .reference (qualifiedPath names path)
  | operand => operand

def qualifiedValue : RightHandSide Token → RightHandSide Token
  | .single operand => .single (qualifiedOperand names operand)
  | value => value

def qualifiedBinding (binding : Binding Token) : Binding Token :=
  ⟨binding.equals, qualifiedValue names binding.value,
    binding.inspected.map fun link => (link.1, link.2.map (qualifiedOperand names))⟩

/-- A name with a type, unless it has one already. -/
def typedSegment (equals : Token) (type : Option String) : Segment Token → Segment Token
  | .name ⟨path, modifiers, none⟩ =>
    .name ⟨path, modifiers, type.map fun type =>
      ⟨(typeLink equals type).1, [], (typeLink equals type).2, []⟩⟩
  | segment => segment

/-- Changes the last of some segments. -/
def changeLast {α : Type} (change : Segment α → Segment α) :
    Segment α → List (α × Segment α) → Segment α × List (α × Segment α)
  | first, [] => (change first, [])
  | first, (question, segment) :: more =>
    let changed := changeLast change segment more
    (first, (question, changed.1) :: changed.2)

/-- The tree of a statement as it is written outside of blocks. -/
def qualifiedStatement (around : Surroundings) (statement : Statement Token) : Statement Token :=
  let first := qualifiedSegment around.names statement.first
  let more := statement.more.map fun link => (link.1, qualifiedSegment around.names link.2)
  match statement.binding with
  | none => ⟨first, more, none⟩
  | some binding =>
    let typed := changeLast (typedSegment binding.equals around.memberType) first more
    ⟨typed.1, typed.2, some (qualifiedBinding around.names binding)⟩

end Trees

/-! ## Leaves -/

section Leaves

variable {names : List String}

theorem name_not_arrow : (TokenKind.identifier == TokenKind.arrow) = false := rfl

theorem qualify_cons_inert {token : Token} (noName : token.kind ≠ .identifier) (linked : Bool)
    (rest : List Token) :
    qualify names linked (token :: rest) = token :: qualify names (token.kind == .arrow) rest := by
  simp [qualify, noName]

/-- Nothing is put in front of tokens that are not part of a path. -/
theorem qualify_inert {run : List Token}
    (inert : ∀ token ∈ run, token.kind ≠ .identifier ∧ token.kind ≠ .arrow) (rest : List Token) :
    qualify names false (run ++ rest) = run ++ qualify names false rest := by
  induction run with
  | nil => rfl
  | cons token run inductionHypothesis =>
    obtain ⟨noName, noArrow⟩ := inert token (by simp)
    have later := inductionHypothesis fun other member => inert other (by simp [member])
    rw [List.cons_append, qualify_cons_inert noName, beq_eq_false_iff_ne.mpr noArrow, later]
    rfl

/-- Within a path nothing is put in front of a name. -/
theorem qualify_linked {path : Path Token} (kinds : path.WellKinded Token.kind)
    (rest : List Token) :
    qualify names true (path.leaves ++ rest) = path.leaves ++ qualify names false rest := by
  obtain ⟨outer, last⟩ := path
  obtain ⟨links, lastKind⟩ := kinds
  simp only at links lastKind
  induction outer with
  | nil => simp [Path.leaves, qualify, lastKind, name_not_arrow]
  | cons link outer inductionHypothesis =>
    obtain ⟨nameKind, arrowKind⟩ := links link (by simp)
    have later := inductionHypothesis fun link member => links link (by simp [member])
    simp only [Path.leaves, List.append_assoc, List.singleton_append] at later
    simp [Path.leaves, qualify, nameKind, arrowKind, later]

theorem qualify_path {path : Path Token} (kinds : path.WellKinded Token.kind)
    (rest : List Token) :
    qualify names false (path.leaves ++ rest) =
      (qualifiedPath names path).leaves ++ qualify names false rest := by
  obtain ⟨outer, last⟩ := path
  obtain ⟨links, lastKind⟩ := kinds
  simp only at links lastKind
  cases outer with
  | nil =>
    simp [Path.leaves, qualifiedPath, qualify, lastKind, name_not_arrow, Path.first,
      List.flatMap_map]
  | cons link outer =>
    obtain ⟨nameKind, arrowKind⟩ := links link (by simp)
    have inner := @qualify_linked names ⟨outer, last⟩
      ⟨fun link member => links link (by simp [member]), lastKind⟩ rest
    simp only [Path.leaves, List.append_assoc, List.singleton_append] at inner
    simp [Path.leaves, qualifiedPath, qualify, nameKind, arrowKind, Path.first, List.flatMap_map,
      inner]

theorem modifiers_inert {modifiers : List Token} (kinds : Modifiers Token.kind modifiers) :
    ∀ token ∈ modifiers, token.kind ≠ .identifier ∧ token.kind ≠ .arrow := by
  intro token member
  have isModifier := kinds token member
  exact ⟨kind_ne_of_test isModifier rfl, kind_ne_of_test isModifier rfl⟩

theorem clause_inert {clause : TypeClause Token} (kinds : clause.WellKinded Token.kind) :
    ∀ token ∈ clause.leaves, token.kind ≠ .identifier ∧ token.kind ≠ .arrow := by
  intro token member
  rcases clause.leaf_cases kinds member with isModifier | isColon | isType
  · have modifierKinds : Modifiers Token.kind (clause.before ++ clause.after) :=
      List.forall_mem_append.mpr ⟨kinds.2.1, kinds.2.2.2⟩
    exact modifiers_inert modifierKinds token isModifier
  · simp [isColon]
  · simp [isType]

theorem literal_inert {token : Token} (isLiteral : token.kind.isLiteral = true) :
    token.kind ≠ .identifier ∧ token.kind ≠ .arrow :=
  ⟨kind_ne_of_test isLiteral rfl, kind_ne_of_test isLiteral rfl⟩

theorem qualify_segment {segment : Segment Token} (kinds : segment.WellKinded Token.kind)
    (rest : List Token) :
    qualify names false (segment.leaves ++ rest) =
      (qualifiedSegment names segment).leaves ++ qualify names false rest := by
  cases segment with
  | empty => rfl
  | literal token =>
    exact qualify_inert (by simpa [Segment.leaves] using literal_inert kinds) rest
  | name definition =>
    obtain ⟨path, modifiers, clause⟩ := definition
    obtain ⟨pathKinds, modifierKinds, clauseKinds⟩ := kinds
    have clauseInert : ∀ token ∈ (clause.map TypeClause.leaves).getD [],
        token.kind ≠ .identifier ∧ token.kind ≠ .arrow := by
      cases clause with
      | none => simp
      | some clause => exact clause_inert (clauseKinds clause rfl)
    simp only [Segment.leaves, qualifiedSegment, Definition.leaves, qualifiedDefinition,
      List.append_assoc]
    rw [qualify_path pathKinds, qualify_inert (modifiers_inert modifierKinds),
      qualify_inert clauseInert]

theorem qualify_operand {operand : Operand Token} (kinds : operand.WellKinded Token.kind)
    (rest : List Token) :
    qualify names false (operand.leaves ++ rest) =
      (qualifiedOperand names operand).leaves ++ qualify names false rest := by
  cases operand with
  | literal token => exact qualify_inert (by simpa [Operand.leaves] using literal_inert kinds) rest
  | reference path => exact qualify_path kinds rest

theorem qualify_more {more : List (Token × Segment Token)}
    (kinds : ∀ link ∈ more, link.1.kind = .question ∧ link.2.WellKinded Token.kind)
    (rest : List Token) :
    qualify names false (segmentLeaves more ++ rest) =
      segmentLeaves (more.map fun link => (link.1, qualifiedSegment names link.2)) ++
        qualify names false rest := by
  induction more with
  | nil => rfl
  | cons link more inductionHypothesis =>
    obtain ⟨isQuestion, segmentKinds⟩ := kinds link (by simp)
    have later := inductionHypothesis fun link member => kinds link (by simp [member])
    have noArrow : (TokenKind.question == TokenKind.arrow) = false := rfl
    simp only [segmentLeaves] at later
    simp only [segmentLeaves, List.flatMap_cons, List.map_cons, List.cons_append,
      List.append_assoc]
    rw [qualify_cons_inert (by simp [isQuestion]), isQuestion, noArrow,
      qualify_segment segmentKinds, later]

theorem qualify_inspected {inspected : List (Token × Option (Operand Token))}
    (kinds : ∀ link ∈ inspected, link.1.kind = .question ∧
      ∀ operand ∈ link.2, operand.WellKinded Token.kind) :
    qualify names false (inspectedLeaves inspected) =
      inspectedLeaves (inspected.map fun link =>
        (link.1, link.2.map (qualifiedOperand names))) := by
  induction inspected with
  | nil => rfl
  | cons link inspected inductionHypothesis =>
    obtain ⟨question, operand⟩ := link
    obtain ⟨isQuestion, operandKinds⟩ := kinds (question, operand) (by simp)
    have later := inductionHypothesis fun link member => kinds link (by simp [member])
    have noArrow : (TokenKind.question == TokenKind.arrow) = false := rfl
    simp only [inspectedLeaves] at later isQuestion
    simp only [inspectedLeaves, List.flatMap_cons, List.map_cons, List.cons_append]
    rw [qualify_cons_inert (by simp [isQuestion]), isQuestion, noArrow]
    cases operand with
    | none => simpa using later
    | some operand =>
      simp only [Option.map_some, Option.getD_some]
      rw [qualify_operand (operandKinds operand rfl), later]

theorem qualify_value {value : RightHandSide Token} (kinds : value.WellKinded Token.kind) :
    qualifyValue names value.leaves = (qualifiedValue names value).leaves := by
  cases value with
  | single operand =>
    have plain : operand.leaves.any (isArithmetic ·.kind) = false := by
      rw [List.any_eq_false]
      intro token member
      simp [(kinds_of_operand kinds token member).2]
    have qualified := @qualify_operand names operand kinds []
    simp only [List.append_nil, qualify] at qualified
    simp only [RightHandSide.leaves, qualifyValue, plain, Bool.false_eq_true, if_false,
      qualifiedValue, qualified]
  | expression first more =>
    have arithmetic := kinds.2
    simp only [RightHandSide.leaves, qualifyValue, qualifiedValue, arithmetic, if_true]

/-! ### Whole statements -/

theorem segment_plain {segment : Segment Token} (kinds : segment.WellKinded Token.kind) :
    ∀ token ∈ segment.leaves, token.kind ≠ .equals ∧ token.kind ≠ .question := by
  intro token member
  cases segment with
  | empty => cases member
  | literal literal =>
    obtain rfl := List.mem_singleton.mp member
    have isLiteral : token.kind.isLiteral = true := kinds
    exact ⟨kind_ne_of_test isLiteral rfl, kind_ne_of_test isLiteral rfl⟩
  | name definition =>
    have possible := definition.kind_leaves kinds token member
    constructor <;> intro kind <;> simp [kind, TokenKind.isModifier] at possible

theorem any_identifier_segment {segment : Segment Token} (kinds : segment.WellKinded Token.kind) :
    segment.leaves.any (·.kind == .identifier) = segment.isName := by
  cases segment with
  | empty => rfl
  | literal token =>
    have noName := (literal_inert kinds).1
    simpa [Segment.leaves, Segment.isName] using noName
  | name definition =>
    obtain ⟨path, modifiers, clause⟩ := definition
    have lastKind : path.last.kind = .identifier := kinds.1.2
    simp [Segment.leaves, Segment.isName, Definition.leaves, Path.leaves, lastKind]

theorem any_typeName_segment {segment : Segment Token} (kinds : segment.WellKinded Token.kind) :
    segment.leaves.any (·.kind == .typeName) = segment.isTyped := by
  cases segment with
  | empty => rfl
  | literal token =>
    have isLiteral : token.kind.isLiteral = true := kinds
    have noType : token.kind ≠ .typeName := kind_ne_of_test isLiteral rfl
    simpa [Segment.leaves, Segment.isTyped] using noType
  | name definition =>
    obtain ⟨path, modifiers, clause⟩ := definition
    have possible := Definition.kind_leaves kinds
    cases clause with
    | none =>
      simp only [Segment.leaves, Segment.isTyped, Option.isSome_none, List.any_eq_false]
      intro token member isType
      have kind : token.kind = .typeName := by simpa using isType
      simpa [kind, TokenKind.isModifier] using possible token member
    | some clause =>
      have typeKind : clause.type.kind = .typeName := (kinds.2.2 clause rfl).2.2.1
      simp [Segment.leaves, Segment.isTyped, Definition.leaves, TypeClause.leaves, typeKind]

theorem leaves_changeLast {change : Segment Token → Segment Token} {added : List Token}
    {first : Segment Token} {more : List (Token × Segment Token)}
    (adds : (change (lastSegment first more)).leaves = (lastSegment first more).leaves ++ added) :
    (changeLast change first more).1.leaves ++ segmentLeaves (changeLast change first more).2 =
      first.leaves ++ segmentLeaves more ++ added := by
  induction more generalizing first with
  | nil => simpa [changeLast, segmentLeaves] using adds
  | cons link more inductionHypothesis =>
    rw [lastSegment_cons] at adds
    have later := inductionHypothesis adds
    simp only [segmentLeaves] at later
    simp [changeLast, segmentLeaves, later]

theorem takeWhile_append_cut {run rest : List Token} {cut : Token} {wanted : Token → Bool}
    (unwanted : wanted cut = false) :
    (run ++ cut :: rest).takeWhile wanted = run.takeWhile wanted := by
  induction run with
  | nil => simp [unwanted]
  | cons token run inductionHypothesis =>
    simp only [List.cons_append, List.takeWhile_cons, inductionHypothesis]

/-- The tokens after the last question mark are those of the last segment. -/
theorem takeWhile_segments {first : Segment Token} {more : List (Token × Segment Token)}
    (firstKinds : first.WellKinded Token.kind)
    (moreKinds : ∀ link ∈ more, link.1.kind = .question ∧ link.2.WellKinded Token.kind) :
    (first.leaves ++ segmentLeaves more).reverse.takeWhile (·.kind != .question) =
      (lastSegment first more).leaves.reverse := by
  induction more generalizing first with
  | nil =>
    have plain : ∀ token ∈ first.leaves.reverse, (token.kind != .question) = true := by
      intro token member
      simpa using (segment_plain firstKinds token (List.mem_reverse.mp member)).2
    simpa [segmentLeaves] using List.takeWhile_eq_self_iff.mpr plain
  | cons link more inductionHypothesis =>
    obtain ⟨isQuestion, segmentKinds⟩ := moreKinds link (by simp)
    have later := inductionHypothesis segmentKinds fun link member =>
      moreKinds link (by simp [member])
    have unfolded : (first.leaves ++ segmentLeaves (link :: more)).reverse =
        (link.2.leaves ++ segmentLeaves more).reverse ++ link.1 :: first.leaves.reverse := by
      simp [segmentLeaves]
    rw [unfolded, takeWhile_append_cut (by simp [isQuestion]), later, lastSegment_cons]

theorem lastSegment_wellKinded {first : Segment Token} {more : List (Token × Segment Token)}
    (firstKinds : first.WellKinded Token.kind)
    (moreKinds : ∀ link ∈ more, link.1.kind = .question ∧ link.2.WellKinded Token.kind) :
    (lastSegment first more).WellKinded Token.kind := by
  induction more generalizing first with
  | nil => exact firstKinds
  | cons link more inductionHypothesis =>
    rw [lastSegment_cons]
    exact inductionHypothesis (moreKinds link (by simp)).2 fun link member =>
      moreKinds link (by simp [member])

theorem inheritedType?_segments {first : Segment Token} {more : List (Token × Segment Token)}
    (firstKinds : first.WellKinded Token.kind)
    (moreKinds : ∀ link ∈ more, link.1.kind = .question ∧ link.2.WellKinded Token.kind)
    (memberType : Option String) :
    inheritedType? memberType (first.leaves ++ segmentLeaves more) =
      if (lastSegment first more).isName && !(lastSegment first more).isTyped then memberType
      else none := by
  have lastKinds := lastSegment_wellKinded firstKinds moreKinds
  simp only [inheritedType?, takeWhile_segments firstKinds moreKinds, List.any_reverse,
    any_identifier_segment lastKinds, any_typeName_segment lastKinds]

theorem leaves_typedSegment (equals : Token) (type : Option String) (segment : Segment Token) :
    (typedSegment equals type segment).leaves = segment.leaves ++
      (if segment.isName && !segment.isTyped then type else none).toList.flatMap fun type =>
        [(typeLink equals type).1, (typeLink equals type).2] := by
  cases segment with
  | empty | literal token => simp [typedSegment, Segment.isName]
  | name definition =>
    obtain ⟨path, modifiers, clause⟩ := definition
    cases clause with
    | some clause => simp [typedSegment, Segment.isTyped]
    | none =>
      cases type <;> simp [typedSegment, Segment.isTyped, Segment.isName, Segment.leaves,
        Definition.leaves, TypeClause.leaves]

theorem lastSegment_qualified (first : Segment Token) (more : List (Token × Segment Token)) :
    lastSegment (qualifiedSegment names first)
      (more.map fun link => (link.1, qualifiedSegment names link.2)) =
      qualifiedSegment names (lastSegment first more) := by
  induction more generalizing first with
  | nil => rfl
  | cons link more inductionHypothesis => simp [inductionHypothesis]

@[simp] theorem isName_qualifiedSegment (segment : Segment Token) :
    (qualifiedSegment names segment).isName = segment.isName := by
  cases segment <;> rfl

@[simp] theorem isTyped_qualifiedSegment (segment : Segment Token) :
    (qualifiedSegment names segment).isTyped = segment.isTyped := by
  cases segment <;> rfl

/-- No token before the `=` is one itself. -/
theorem segments_noEquals {first : Segment Token} {more : List (Token × Segment Token)}
    (firstKinds : first.WellKinded Token.kind)
    (moreKinds : ∀ link ∈ more, link.1.kind = .question ∧ link.2.WellKinded Token.kind) :
    ∀ token ∈ first.leaves ++ segmentLeaves more, (token.kind != .equals) = true := by
  intro token member
  rcases List.mem_append.mp member with inFirst | inMore
  · simpa using (segment_plain firstKinds token inFirst).1
  · obtain ⟨link, inside, member⟩ := List.mem_flatMap.mp inMore
    rcases List.mem_cons.mp member with rfl | member
    · simp [(moreKinds link inside).1]
    · simpa using (segment_plain (moreKinds link inside).2 token member).1

/-- A right-hand side ends at the first question mark. -/
theorem value_noQuestion {value : RightHandSide Token} (kinds : value.WellKinded Token.kind) :
    ∀ token ∈ value.leaves, (token.kind != .question) = true := by
  intro token member
  exact bne_iff_ne.mpr (kind_ne_of_test (kinds_of_value kinds token member) rfl)

/-- The `=` of a statement divides its tokens. -/
theorem span_equals {run : List Token} (noEquals : ∀ token ∈ run, (token.kind != .equals) = true)
    {equals : Token} (isEquals : equals.kind = .equals) (rest : List Token) :
    (run ++ equals :: rest).takeWhile (·.kind != .equals) = run ∧
      (run ++ equals :: rest).dropWhile (·.kind != .equals) = equals :: rest := by
  rw [List.takeWhile_append_of_pos noEquals, List.takeWhile_cons_of_neg (by simp [isEquals]),
    List.append_nil, List.dropWhile_append_of_pos noEquals,
    List.dropWhile_cons_of_neg (by simp [isEquals])]
  exact ⟨rfl, rfl⟩

/-- So does the first question mark the tokens behind the `=`. -/
theorem span_question {value : RightHandSide Token} (kinds : value.WellKinded Token.kind)
    {inspected : List (Token × Option (Operand Token))}
    (inspectedKinds : ∀ link ∈ inspected, link.1.kind = .question) :
    (value.leaves ++ inspectedLeaves inspected).takeWhile (·.kind != .question) = value.leaves ∧
      (value.leaves ++ inspectedLeaves inspected).dropWhile (·.kind != .question) =
        inspectedLeaves inspected := by
  have noQuestion := value_noQuestion kinds
  rw [List.takeWhile_append_of_pos noQuestion, List.dropWhile_append_of_pos noQuestion]
  cases inspected with
  | nil => simp [inspectedLeaves]
  | cons link inspected => simp [inspectedLeaves, inspectedKinds link (by simp)]

/-- Writing a statement outside of blocks is writing its tree that way. -/
theorem qualifyRun_leaves (around : Surroundings) {statement : Statement Token}
    (kinds : statement.WellKinded Token.kind) :
    qualifyRun around statement.leaves = (qualifiedStatement around statement).leaves := by
  obtain ⟨first, more, binding⟩ := statement
  obtain ⟨firstKinds, moreKinds, bindingKinds⟩ := kinds
  simp only at firstKinds moreKinds
  have noEquals := segments_noEquals firstKinds moreKinds
  have qualified : qualify around.names false (first.leaves ++ segmentLeaves more) =
      (qualifiedSegment around.names first).leaves ++
        segmentLeaves (more.map fun link => (link.1, qualifiedSegment around.names link.2)) := by
    have laterQualified := @qualify_more around.names more moreKinds []
    simp only [List.append_nil, qualify] at laterQualified
    rw [qualify_segment firstKinds, laterQualified]
  cases binding with
  | none =>
    simp only [Statement.leaves, Option.map_none, Option.getD_none, List.append_nil, qualifyRun,
      List.takeWhile_eq_self_iff.mpr noEquals, List.dropWhile_eq_nil_iff.mpr noEquals, qualified,
      qualifiedStatement]
  | some binding =>
    obtain ⟨equals, value, inspected⟩ := binding
    obtain ⟨isEquals, valueKinds, inspectedKinds⟩ := bindingKinds _ rfl
    simp only at isEquals valueKinds inspectedKinds
    -- the run is cut at its `=` and at the question mark behind the value, as the tree is
    obtain ⟨before, after⟩ :=
      span_equals noEquals isEquals (value.leaves ++ inspectedLeaves inspected)
    obtain ⟨inValue, pastValue⟩ :=
      span_question valueKinds fun link member => (inspectedKinds link member).1
    have typed := @leaves_changeLast (typedSegment equals around.memberType) _
      (qualifiedSegment around.names first)
      (more.map fun link => (link.1, qualifiedSegment around.names link.2))
      (leaves_typedSegment equals around.memberType _)
    simp only [lastSegment_qualified, isName_qualifiedSegment, isTyped_qualifiedSegment] at typed
    simp only [Statement.leaves, Option.map_some, Option.getD_some, Binding.leaves, qualifyRun,
      before, after, inValue, pastValue, qualified, qualify_value valueKinds,
      qualify_inspected inspectedKinds, inheritedType?_segments firstKinds moreKinds,
      qualifiedStatement, qualifiedBinding, typed]

end Leaves

end ParaLang.Annotations
