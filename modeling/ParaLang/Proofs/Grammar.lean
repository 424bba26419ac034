import Mathlib.Data.Option.Basic
import ParaLang.Annotations

/-! # The grammar of statements

A statement is a line of segments between question marks, the last of which may be assigned to.
The trees of this module have the tokens of a statement as their leaves, in any form that shows
the kind of each: as plain tokens, with a place, or as bare spellings.  A list of tokens is a
statement if it is the leaves of a tree whose kinds fit. -/

namespace ParaLang.Grammar

open ParaLang.Annotations (isArithmetic)

variable {α β : Type}

/-! ## Trees -/

/-- `name {-> name}`. -/
structure Path (α : Type) where
  /-- Each name but the last, with the arrow after it. -/
  outer : List (α × α)
  last : α

/-- `: MOD* TYPE MOD*`. -/
structure TypeClause (α : Type) where
  colon : α
  before : List α
  type : α
  after : List α

/-- `path MOD* [: MOD* TYPE MOD*]`. -/
structure Definition (α : Type) where
  path : Path α
  modifiers : List α
  clause : Option (TypeClause α)

inductive Segment (α : Type) where
  | empty
  | literal (token : α)
  | name (definition : Definition α)

/-- `literal | path`. -/
inductive Operand (α : Type) where
  | literal (token : α)
  | reference (path : Path α)

/-- An operand by itself, or a run with an operator or a parenthesis. -/
inductive RightHandSide (α : Type) where
  | single (operand : Operand α)
  | expression (first : α) (more : List α)

/-- `= R {? seg}`, where a segment is empty or an operand. -/
structure Binding (α : Type) where
  equals : α
  value : RightHandSide α
  /-- Each question mark with the segment after it. -/
  inspected : List (α × Option (Operand α))

/-- `seg {? seg} [= R {? seg}]`. -/
structure Statement (α : Type) where
  first : Segment α
  /-- Each question mark with the segment after it. -/
  more : List (α × Segment α)
  binding : Option (Binding α)

/-- `name {-> name} -> [: TYPE]`. -/
structure Header (α : Type) where
  path : Path α
  arrow : α
  /-- The colon and the type. -/
  memberType : Option (α × α)

/-! ## Leaves -/

def Path.leaves (path : Path α) : List α :=
  path.outer.flatMap (fun (name, arrow) => [name, arrow]) ++ [path.last]

def TypeClause.leaves (clause : TypeClause α) : List α :=
  clause.colon :: (clause.before ++ clause.type :: clause.after)

def Definition.leaves (definition : Definition α) : List α :=
  definition.path.leaves ++ definition.modifiers ++
    (definition.clause.map TypeClause.leaves).getD []

def Segment.leaves : Segment α → List α
  | .empty => []
  | .literal token => [token]
  | .name definition => definition.leaves

def Operand.leaves : Operand α → List α
  | .literal token => [token]
  | .reference path => path.leaves

def RightHandSide.leaves : RightHandSide α → List α
  | .single operand => operand.leaves
  | .expression first more => first :: more

def inspectedLeaves (inspected : List (α × Option (Operand α))) : List α :=
  inspected.flatMap fun (question, operand) =>
    question :: (operand.map Operand.leaves).getD []

def Binding.leaves (binding : Binding α) : List α :=
  binding.equals :: (binding.value.leaves ++ inspectedLeaves binding.inspected)

def segmentLeaves (segments : List (α × Segment α)) : List α :=
  segments.flatMap fun (question, segment) => question :: segment.leaves

def Statement.leaves (statement : Statement α) : List α :=
  statement.first.leaves ++ segmentLeaves statement.more ++
    (statement.binding.map Binding.leaves).getD []

def Header.leaves (header : Header α) : List α :=
  header.path.leaves ++ header.arrow ::
    (header.memberType.map fun (colon, type) => [colon, type]).getD []

/-! ## Parts -/

/-- The first name of a path. -/
def Path.first (path : Path α) : α :=
  match path.outer with
  | [] => path.last
  | (name, _) :: _ => name

/-- All modifiers of a name, before and after its type. -/
def Definition.allModifiers (definition : Definition α) : List α :=
  definition.modifiers ++
    (definition.clause.map fun clause => clause.before ++ clause.after).getD []

def Segment.isName : Segment α → Bool
  | .name _ => true
  | _ => false

def Segment.isTyped : Segment α → Bool
  | .name definition => definition.clause.isSome
  | _ => false

/-- The last segment of some that follow another one. -/
def lastSegment (first : Segment α) (more : List (α × Segment α)) : Segment α :=
  (more.getLast?.map Prod.snd).getD first

@[simp] theorem lastSegment_nil (first : Segment α) : lastSegment first [] = first := rfl

@[simp] theorem lastSegment_cons (first : Segment α) (link : α × Segment α)
    (more : List (α × Segment α)) :
    lastSegment first (link :: more) = lastSegment link.2 more := by
  cases more <;> simp [lastSegment, List.getLast?_cons]

/-- The segment in front of the `=`. -/
def Statement.target (statement : Statement α) : Segment α :=
  lastSegment statement.first statement.more

/-! ## Kinds -/

section Kinds

variable (kind : α → TokenKind)

def Path.WellKinded (path : Path α) : Prop :=
  (∀ link ∈ path.outer, kind link.1 = .identifier ∧ kind link.2 = .arrow) ∧
    kind path.last = .identifier

def Modifiers (tokens : List α) : Prop :=
  ∀ token ∈ tokens, (kind token).isModifier = true

def TypeClause.WellKinded (clause : TypeClause α) : Prop :=
  kind clause.colon = .colon ∧ Modifiers kind clause.before ∧ kind clause.type = .typeName ∧
    Modifiers kind clause.after

/-- No list of modifiers makes a name both mutable and constant. -/
def Compatible (tokens : List α) : Prop :=
  ¬ (tokens.any (kind · == .muta) = true ∧ tokens.any (kind · == .const) = true)

def Definition.WellKinded (definition : Definition α) : Prop :=
  definition.path.WellKinded kind ∧ Modifiers kind definition.modifiers ∧
    ∀ clause ∈ definition.clause, clause.WellKinded kind

def Segment.WellKinded : Segment α → Prop
  | .empty => True
  | .literal token => (kind token).isLiteral = true
  | .name definition => definition.WellKinded kind

def Operand.WellKinded : Operand α → Prop
  | .literal token => (kind token).isLiteral = true
  | .reference path => path.WellKinded kind

/-- The kinds of tokens that an expression is made of. -/
def inExpression (kind : TokenKind) : Bool :=
  kind.isLiteral || kind.isOperator ||
    [.identifier, .leftParen, .rightParen, .arrow].contains kind

def RightHandSide.WellKinded : RightHandSide α → Prop
  | .single operand => operand.WellKinded kind
  | .expression first more =>
    (∀ token ∈ first :: more, inExpression (kind token) = true) ∧
      (first :: more).any (isArithmetic <| kind ·) = true

def Binding.WellKinded (binding : Binding α) : Prop :=
  kind binding.equals = .equals ∧ binding.value.WellKinded kind ∧
    ∀ link ∈ binding.inspected, kind link.1 = .question ∧
      ∀ operand ∈ link.2, operand.WellKinded kind

def Statement.WellKinded (statement : Statement α) : Prop :=
  statement.first.WellKinded kind ∧
    (∀ link ∈ statement.more, kind link.1 = .question ∧ link.2.WellKinded kind) ∧
    ∀ binding ∈ statement.binding, binding.WellKinded kind

def Header.WellKinded (header : Header α) : Prop :=
  header.path.WellKinded kind ∧ kind header.arrow = .arrow ∧
    ∀ link ∈ header.memberType, kind link.1 = .colon ∧ kind link.2 = .typeName

/-- The names of a segment with their modifiers. -/
def Segment.Compatible : Segment α → Prop
  | .name definition => Grammar.Compatible kind definition.allModifiers
  | _ => True

def Statement.Compatible (statement : Statement α) : Prop :=
  statement.first.Compatible kind ∧ ∀ link ∈ statement.more, link.2.Compatible kind

theorem Compatible.left {kind : α → TokenKind} {before after : List α}
    (compatible : Compatible kind (before ++ after)) : Compatible kind before := by
  rintro ⟨mutable, constant⟩
  exact compatible ⟨by simp [mutable], by simp [constant]⟩

end Kinds

/-! ## Kinds of leaves -/

/-- A test tells a kind for which it holds from one for which it fails. -/
theorem kind_ne_of_test {test : TokenKind → Bool} {kind other : TokenKind}
    (holds : test kind = true) (fails : test other = false) : kind ≠ other := by
  rintro rfl
  rw [holds] at fails
  cases fails

/-- Tokens that do not cut a program into lines. -/
def inLine : TokenKind → Bool
  | .newline | .leftBrace | .rightBrace | .endOfInput => false
  | _ => true

section Leaves

variable {kind : α → TokenKind}

theorem Path.leaves_nil (last : α) : Path.leaves ⟨[], last⟩ = [last] := rfl

theorem Path.leaves_cons (name arrow : α) (outer : List (α × α)) (last : α) :
    Path.leaves ⟨(name, arrow) :: outer, last⟩ = name :: arrow :: Path.leaves ⟨outer, last⟩ := rfl

theorem Path.wellKinded_cons {name arrow : α} {outer : List (α × α)} {last : α} :
    Path.WellKinded kind ⟨(name, arrow) :: outer, last⟩ ↔
      (kind name = .identifier ∧ kind arrow = .arrow) ∧ Path.WellKinded kind ⟨outer, last⟩ := by
  simp [Path.WellKinded, and_assoc]

/-- A path starts with a name. -/
theorem Path.exists_first {path : Path α} (kinds : path.WellKinded kind) :
    ∃ name more, path.leaves = name :: more ∧ kind name = .identifier := by
  obtain ⟨outer, last⟩ := path
  cases outer with
  | nil => exact ⟨last, [], rfl, kinds.2⟩
  | cons link outer => exact ⟨link.1, _, rfl, (kinds.1 link (by simp)).1⟩

theorem Path.kind_leaves {path : Path α} (kinds : path.WellKinded kind) :
    ∀ token ∈ path.leaves, kind token = .identifier ∨ kind token = .arrow := by
  intro token member
  simp only [Path.leaves, List.mem_append, List.mem_flatMap, List.mem_cons, List.not_mem_nil,
    or_false] at member
  rcases member with ⟨link, inside, rfl | rfl⟩ | rfl
  · exact .inl (kinds.1 link inside).1
  · exact .inr (kinds.1 link inside).2
  · exact .inl kinds.2

theorem Path.inLine {path : Path α} (kinds : path.WellKinded kind) :
    ∀ token ∈ path.leaves, inLine (kind token) = true := by
  intro token member
  rcases Path.kind_leaves kinds token member with isName | isArrow
  · rw [isName]; rfl
  · rw [isArrow]; rfl

theorem inLine_of_modifier {kind : TokenKind} (isModifier : kind.isModifier = true) :
    inLine kind = true := by
  cases kind <;> simp_all [TokenKind.isModifier, inLine]

theorem Modifiers.inLine {modifiers : List α} (kinds : Modifiers kind modifiers) :
    ∀ token ∈ modifiers, inLine (kind token) = true :=
  fun token member => inLine_of_modifier (kinds token member)

theorem TypeClause.leaf_cases {clause : TypeClause α} (kinds : clause.WellKinded kind) {leaf : α}
    (member : leaf ∈ clause.leaves) :
    leaf ∈ clause.before ++ clause.after ∨ kind leaf = .colon ∨ kind leaf = .typeName := by
  simp only [TypeClause.leaves, List.mem_cons, List.mem_append] at member ⊢
  rcases member with rfl | inBefore | rfl | inAfter
  · exact .inr (.inl kinds.1)
  · exact .inl (.inl inBefore)
  · exact .inr (.inr kinds.2.2.1)
  · exact .inl (.inr inAfter)

/-- A token of a definition belongs to its path or its modifiers, or comes with its type. -/
theorem Definition.leaf_cases {definition : Definition α} (kinds : definition.WellKinded kind)
    {leaf : α} (member : leaf ∈ definition.leaves) :
    leaf ∈ definition.path.leaves ∨ leaf ∈ definition.allModifiers ∨
      definition.clause.isSome = true ∧ (kind leaf = .colon ∨ kind leaf = .typeName) := by
  obtain ⟨path, modifiers, clause⟩ := definition
  simp only [Definition.leaves, List.mem_append] at member
  rcases member with (inPath | inModifiers) | inClause
  · exact .inl inPath
  · exact .inr (.inl (List.mem_append_left _ inModifiers))
  · cases clause with
    | none => cases inClause
    | some clause =>
      rcases TypeClause.leaf_cases (kinds.2.2 clause rfl) inClause with isModifier | ofType
      · exact .inr (.inl (List.mem_append_right _ isModifier))
      · exact .inr (.inr ⟨rfl, ofType⟩)

theorem Definition.modifiers_allModifiers {definition : Definition α}
    (kinds : definition.WellKinded kind) : Modifiers kind definition.allModifiers := by
  obtain ⟨path, modifiers, clause⟩ := definition
  obtain ⟨-, modifierKinds, clauseKinds⟩ := kinds
  refine List.forall_mem_append.mpr ⟨modifierKinds, ?_⟩
  cases clause with
  | none => simp
  | some clause =>
    obtain ⟨-, beforeKinds, -, afterKinds⟩ := clauseKinds clause rfl
    exact List.forall_mem_append.mpr ⟨beforeKinds, afterKinds⟩

theorem Definition.kind_leaves {definition : Definition α} (kinds : definition.WellKinded kind) :
    ∀ token ∈ definition.leaves, kind token = .identifier ∨ kind token = .arrow ∨
      (kind token).isModifier = true ∨
      definition.clause.isSome = true ∧ (kind token = .colon ∨ kind token = .typeName) := by
  intro token member
  rcases definition.leaf_cases kinds member with inPath | isModifier | ofType
  · rcases Path.kind_leaves kinds.1 token inPath with isName | isArrow
    · exact .inl isName
    · exact .inr (.inl isArrow)
  · exact .inr (.inr (.inl (definition.modifiers_allModifiers kinds token isModifier)))
  · exact .inr (.inr (.inr ofType))

theorem Definition.inLine {definition : Definition α} (kinds : definition.WellKinded kind) :
    ∀ token ∈ definition.leaves, inLine (kind token) = true := by
  intro token member
  rcases definition.kind_leaves kinds token member with
    isName | isArrow | isModifier | ⟨-, isColon | isType⟩
  · rw [isName]; rfl
  · rw [isArrow]; rfl
  · exact inLine_of_modifier isModifier
  · rw [isColon]; rfl
  · rw [isType]; rfl

theorem inLine_of_literal {kind : TokenKind} (isLiteral : kind.isLiteral = true) :
    inLine kind = true := by
  cases kind <;> simp_all [TokenKind.isLiteral, inLine]

theorem inLine_of_inExpression {kind : TokenKind} (belongs : inExpression kind = true) :
    inLine kind = true := by
  cases kind <;> simp_all [inExpression, TokenKind.isLiteral, TokenKind.isOperator, inLine]

theorem Segment.inLine {segment : Segment α} (kinds : segment.WellKinded kind) :
    ∀ token ∈ segment.leaves, inLine (kind token) = true := by
  intro token member
  cases segment with
  | empty => cases member
  | literal literal =>
    obtain rfl := List.mem_singleton.mp member
    exact inLine_of_literal kinds
  | name definition => exact Definition.inLine kinds token member

theorem Operand.inLine {operand : Operand α} (kinds : operand.WellKinded kind) :
    ∀ token ∈ operand.leaves, inLine (kind token) = true := by
  intro token member
  cases operand with
  | literal literal =>
    obtain rfl := List.mem_singleton.mp member
    exact inLine_of_literal kinds
  | reference path => exact Path.inLine kinds token member

theorem RightHandSide.inLine {value : RightHandSide α} (kinds : value.WellKinded kind) :
    ∀ token ∈ value.leaves, inLine (kind token) = true := by
  intro token member
  cases value with
  | single operand => exact Operand.inLine kinds token member
  | expression first more => exact inLine_of_inExpression (kinds.1 token member)

theorem segmentLeaves_inLine {segments : List (α × Segment α)}
    (kinds : ∀ link ∈ segments, kind link.1 = .question ∧ link.2.WellKinded kind) :
    ∀ token ∈ segmentLeaves segments, inLine (kind token) = true := by
  intro token member
  obtain ⟨link, inside, member⟩ := List.mem_flatMap.mp member
  rcases List.mem_cons.mp member with rfl | member
  · rw [(kinds link inside).1]; rfl
  · exact Segment.inLine (kinds link inside).2 token member

theorem inspectedLeaves_inLine {inspected : List (α × Option (Operand α))}
    (kinds : ∀ link ∈ inspected, kind link.1 = .question ∧
      ∀ operand ∈ link.2, operand.WellKinded kind) :
    ∀ token ∈ inspectedLeaves inspected, inLine (kind token) = true := by
  intro token member
  obtain ⟨⟨question, operand⟩, inside, member⟩ := List.mem_flatMap.mp member
  rcases List.mem_cons.mp member with rfl | member
  · rw [(kinds _ inside).1]; rfl
  · cases operand with
    | none => cases member
    | some operand => exact Operand.inLine ((kinds _ inside).2 operand rfl) token member

theorem Binding.inLine {binding : Binding α} (kinds : binding.WellKinded kind) :
    ∀ token ∈ binding.leaves, inLine (kind token) = true := by
  intro token member
  obtain ⟨isEquals, valueKinds, inspectedKinds⟩ := kinds
  simp only [Binding.leaves, List.mem_cons, List.mem_append] at member
  rcases member with rfl | inValue | inInspected
  · rw [isEquals]; rfl
  · exact RightHandSide.inLine valueKinds token inValue
  · exact inspectedLeaves_inLine inspectedKinds token inInspected

theorem Statement.inLine {statement : Statement α} (kinds : statement.WellKinded kind) :
    ∀ token ∈ statement.leaves, inLine (kind token) = true := by
  intro token member
  obtain ⟨first, more, binding⟩ := statement
  obtain ⟨firstKinds, moreKinds, bindingKinds⟩ := kinds
  simp only [Statement.leaves, List.mem_append] at member
  rcases member with (inFirst | inMore) | inBinding
  · exact Segment.inLine firstKinds token inFirst
  · exact segmentLeaves_inLine moreKinds token inMore
  · cases binding with
    | none => cases inBinding
    | some binding => exact Binding.inLine (bindingKinds binding rfl) token inBinding

theorem Header.exists_first {header : Header α} (kinds : header.WellKinded kind) :
    ∃ name more, header.leaves = name :: more ∧ kind name = .identifier := by
  obtain ⟨name, more, split, isName⟩ := Path.exists_first kinds.1
  exact ⟨name, _, by rw [Header.leaves, split]; rfl, isName⟩

theorem Header.kind_leaves {header : Header α} (kinds : header.WellKinded kind) :
    ∀ token ∈ header.leaves, kind token = .identifier ∨ kind token = .arrow ∨
      kind token = .colon ∨ kind token = .typeName := by
  intro token member
  obtain ⟨path, arrow, memberType⟩ := header
  obtain ⟨pathKinds, arrowKind, typeKinds⟩ := kinds
  simp only [Header.leaves, List.mem_append, List.mem_cons] at member
  rcases member with inPath | rfl | inType
  · exact (Path.kind_leaves pathKinds token inPath).imp_right .inl
  · exact .inr (.inl arrowKind)
  · cases memberType with
    | none => cases inType
    | some link =>
      obtain ⟨colonKind, typeKind⟩ := typeKinds link rfl
      simp only [Option.map_some, Option.getD_some, List.mem_cons, List.not_mem_nil,
        or_false] at inType
      rcases inType with rfl | rfl
      · exact .inr (.inr (.inl colonKind))
      · exact .inr (.inr (.inr typeKind))

theorem Header.inLine {header : Header α} (kinds : header.WellKinded kind) :
    ∀ token ∈ header.leaves, inLine (kind token) = true := by
  intro token member
  rcases header.kind_leaves kinds token member with isName | isArrow | isColon | isType
  · rw [isName]; rfl
  · rw [isArrow]; rfl
  · rw [isColon]; rfl
  · rw [isType]; rfl

end Leaves

/-! ## Changing the leaves -/

section Map

variable (function : α → β)

def Path.map (path : Path α) : Path β :=
  ⟨path.outer.map fun (name, arrow) => (function name, function arrow), function path.last⟩

def TypeClause.map (clause : TypeClause α) : TypeClause β :=
  ⟨function clause.colon, clause.before.map function, function clause.type,
    clause.after.map function⟩

def Definition.map (definition : Definition α) : Definition β :=
  ⟨definition.path.map function, definition.modifiers.map function,
    definition.clause.map (TypeClause.map function)⟩

def Segment.map : Segment α → Segment β
  | .empty => .empty
  | .literal token => .literal (function token)
  | .name definition => .name (definition.map function)

def Operand.map : Operand α → Operand β
  | .literal token => .literal (function token)
  | .reference path => .reference (path.map function)

def RightHandSide.map : RightHandSide α → RightHandSide β
  | .single operand => .single (operand.map function)
  | .expression first more => .expression (function first) (more.map function)

def Binding.map (binding : Binding α) : Binding β :=
  ⟨function binding.equals, binding.value.map function,
    binding.inspected.map fun (question, operand) =>
      (function question, operand.map (Operand.map function))⟩

def Statement.map (statement : Statement α) : Statement β :=
  ⟨statement.first.map function,
    statement.more.map fun (question, segment) => (function question, segment.map function),
    statement.binding.map (Binding.map function)⟩

def Header.map (header : Header α) : Header β :=
  ⟨header.path.map function, function header.arrow,
    header.memberType.map fun (colon, type) => (function colon, function type)⟩

@[simp] theorem Path.leaves_map (path : Path α) :
    (path.map function).leaves = path.leaves.map function := by
  simp [Path.leaves, Path.map, List.flatMap_map, List.map_flatMap]

@[simp] theorem TypeClause.leaves_map (clause : TypeClause α) :
    (clause.map function).leaves = clause.leaves.map function := by
  simp [TypeClause.leaves, TypeClause.map]

@[simp] theorem Definition.leaves_map (definition : Definition α) :
    (definition.map function).leaves = definition.leaves.map function := by
  cases clause : definition.clause <;> simp [Definition.leaves, Definition.map, clause]

@[simp] theorem Segment.leaves_map (segment : Segment α) :
    (segment.map function).leaves = segment.leaves.map function := by
  cases segment <;> simp [Segment.leaves, Segment.map]

@[simp] theorem Operand.leaves_map (operand : Operand α) :
    (operand.map function).leaves = operand.leaves.map function := by
  cases operand <;> simp [Operand.leaves, Operand.map]

@[simp] theorem RightHandSide.leaves_map (value : RightHandSide α) :
    (value.map function).leaves = value.leaves.map function := by
  cases value <;> simp [RightHandSide.leaves, RightHandSide.map]

theorem inspectedLeaves_map (inspected : List (α × Option (Operand α))) :
    inspectedLeaves (inspected.map fun (question, operand) =>
      (function question, operand.map (Operand.map function))) =
      (inspectedLeaves inspected).map function := by
  induction inspected with
  | nil => rfl
  | cons link inspected inductionHypothesis =>
    obtain ⟨question, operand⟩ := link
    simp only [inspectedLeaves] at inductionHypothesis
    cases operand <;> simp [inspectedLeaves, inductionHypothesis]

@[simp] theorem Binding.leaves_map (binding : Binding α) :
    (binding.map function).leaves = binding.leaves.map function := by
  simp [Binding.leaves, Binding.map, inspectedLeaves_map]

theorem segmentLeaves_map (segments : List (α × Segment α)) :
    segmentLeaves (segments.map fun (question, segment) =>
      (function question, segment.map function)) = (segmentLeaves segments).map function := by
  simp [segmentLeaves, List.flatMap_map, List.map_flatMap]

@[simp] theorem Statement.leaves_map (statement : Statement α) :
    (statement.map function).leaves = statement.leaves.map function := by
  cases binding : statement.binding <;>
    simp [Statement.leaves, Statement.map, segmentLeaves_map, binding]

@[simp] theorem Header.leaves_map (header : Header α) :
    (header.map function).leaves = header.leaves.map function := by
  cases memberType : header.memberType <;> simp [Header.leaves, Header.map, memberType]

variable {function} {kind : β → TokenKind}

@[simp] theorem Path.wellKinded_map (path : Path α) :
    (path.map function).WellKinded kind ↔ path.WellKinded (kind <| function ·) := by
  simp only [Path.WellKinded, Path.map, List.forall_mem_map]

theorem modifiers_map (tokens : List α) :
    Modifiers kind (tokens.map function) ↔ Modifiers (kind <| function ·) tokens := by
  simp [Modifiers]

@[simp] theorem TypeClause.wellKinded_map (clause : TypeClause α) :
    (clause.map function).WellKinded kind ↔ clause.WellKinded (kind <| function ·) := by
  simp [TypeClause.WellKinded, TypeClause.map, modifiers_map]

@[simp] theorem Definition.wellKinded_map (definition : Definition α) :
    (definition.map function).WellKinded kind ↔ definition.WellKinded (kind <| function ·) := by
  simp [Definition.WellKinded, Definition.map, modifiers_map]

@[simp] theorem Segment.wellKinded_map (segment : Segment α) :
    (segment.map function).WellKinded kind ↔ segment.WellKinded (kind <| function ·) := by
  cases segment <;> simp [Segment.WellKinded, Segment.map]

@[simp] theorem Operand.wellKinded_map (operand : Operand α) :
    (operand.map function).WellKinded kind ↔ operand.WellKinded (kind <| function ·) := by
  cases operand <;> simp [Operand.WellKinded, Operand.map]

@[simp] theorem RightHandSide.wellKinded_map (value : RightHandSide α) :
    (value.map function).WellKinded kind ↔ value.WellKinded (kind <| function ·) := by
  cases value <;> simp [RightHandSide.WellKinded, RightHandSide.map, Function.comp_def]

@[simp] theorem Binding.wellKinded_map (binding : Binding α) :
    (binding.map function).WellKinded kind ↔ binding.WellKinded (kind <| function ·) := by
  simp only [Binding.WellKinded, Binding.map, List.forall_mem_map, Option.forall_mem_map,
    RightHandSide.wellKinded_map, Operand.wellKinded_map]

@[simp] theorem Statement.wellKinded_map (statement : Statement α) :
    (statement.map function).WellKinded kind ↔ statement.WellKinded (kind <| function ·) := by
  simp only [Statement.WellKinded, Statement.map, List.forall_mem_map, Option.forall_mem_map,
    Segment.wellKinded_map, Binding.wellKinded_map]

@[simp] theorem Header.wellKinded_map (header : Header α) :
    (header.map function).WellKinded kind ↔ header.WellKinded (kind <| function ·) := by
  simp only [Header.WellKinded, Header.map, Option.forall_mem_map, Path.wellKinded_map]

theorem compatible_map (tokens : List α) :
    Compatible kind (tokens.map function) ↔ Compatible (kind <| function ·) tokens := by
  simp [Compatible]

theorem Definition.allModifiers_map (definition : Definition α) :
    (definition.map function).allModifiers = definition.allModifiers.map function := by
  cases clause : definition.clause <;>
    simp [Definition.allModifiers, Definition.map, TypeClause.map, clause]

@[simp] theorem Segment.compatible_map (segment : Segment α) :
    (segment.map function).Compatible kind ↔ segment.Compatible (kind <| function ·) := by
  cases segment <;>
    simp [Segment.Compatible, Segment.map, Definition.allModifiers_map, Grammar.compatible_map]

@[simp] theorem Statement.compatible_map (statement : Statement α) :
    (statement.map function).Compatible kind ↔ statement.Compatible (kind <| function ·) := by
  simp only [Statement.Compatible, Statement.map, List.forall_mem_map, Segment.compatible_map]

end Map

/-! ## Trees over given leaves

If the images of some tokens are the leaves of a tree, the tokens themselves are the leaves of a
tree of the same shape. -/

section Lift

variable {function : α → β}

theorem Path.exists_of_leaves {path : Path β} {run : List α}
    (leaves : run.map function = path.leaves) :
    ∃ lifted : Path α, lifted.leaves = run ∧ lifted.map function = path := by
  obtain ⟨outer, last⟩ := path
  induction outer generalizing run with
  | nil =>
    simp only [Path.leaves, List.flatMap_nil, List.nil_append, List.map_eq_singleton_iff] at leaves
    obtain ⟨token, rfl, rfl⟩ := leaves
    exact ⟨⟨[], token⟩, rfl, rfl⟩
  | cons link outer inductionHypothesis =>
    simp only [Path.leaves, List.flatMap_cons, List.cons_append, List.nil_append,
      List.map_eq_cons_iff] at leaves
    obtain ⟨name, _, rfl, nameEqual, arrow, rest, rfl, arrowEqual, restEqual⟩ := leaves
    obtain ⟨⟨outer', last'⟩, rfl, mapped⟩ := inductionHypothesis restEqual
    cases mapped
    refine ⟨⟨(name, arrow) :: outer', last'⟩, rfl, ?_⟩
    simp only [Path.map, List.map_cons, nameEqual, arrowEqual]

theorem TypeClause.exists_of_leaves {clause : TypeClause β} {run : List α}
    (leaves : run.map function = clause.leaves) :
    ∃ lifted : TypeClause α, lifted.leaves = run ∧ lifted.map function = clause := by
  obtain ⟨colon, before, type, after⟩ := clause
  simp only [TypeClause.leaves, List.map_eq_cons_iff, List.map_eq_append_iff] at leaves
  obtain ⟨colon, _, rfl, rfl, before, _, rfl, rfl, type, after, rfl, rfl, rfl⟩ := leaves
  exact ⟨⟨colon, before, type, after⟩, rfl, rfl⟩

theorem Definition.exists_of_leaves {definition : Definition β} {run : List α}
    (leaves : run.map function = definition.leaves) :
    ∃ lifted : Definition α, lifted.leaves = run ∧ lifted.map function = definition := by
  obtain ⟨path, modifiers, clause⟩ := definition
  simp only [Definition.leaves, List.map_eq_append_iff] at leaves
  obtain ⟨_, clauseRun, rfl, ⟨pathRun, modifiers, rfl, pathLeaves, rfl⟩, clauseLeaves⟩ := leaves
  obtain ⟨path, rfl, rfl⟩ := Path.exists_of_leaves pathLeaves
  cases clause with
  | none =>
    simp only [Option.map_none, Option.getD_none, List.map_eq_nil_iff] at clauseLeaves
    subst clauseLeaves
    exact ⟨⟨path, modifiers, none⟩, rfl, rfl⟩
  | some clause =>
    obtain ⟨clause, rfl, rfl⟩ := TypeClause.exists_of_leaves clauseLeaves
    exact ⟨⟨path, modifiers, some clause⟩, rfl, rfl⟩

theorem Segment.exists_of_leaves {segment : Segment β} {run : List α}
    (leaves : run.map function = segment.leaves) :
    ∃ lifted : Segment α, lifted.leaves = run ∧ lifted.map function = segment := by
  cases segment with
  | empty =>
    simp only [Segment.leaves, List.map_eq_nil_iff] at leaves
    subst leaves
    exact ⟨.empty, rfl, rfl⟩
  | literal token =>
    simp only [Segment.leaves, List.map_eq_singleton_iff] at leaves
    obtain ⟨token, rfl, rfl⟩ := leaves
    exact ⟨.literal token, rfl, rfl⟩
  | name definition =>
    obtain ⟨definition, rfl, rfl⟩ := Definition.exists_of_leaves leaves
    exact ⟨.name definition, rfl, rfl⟩

theorem Operand.exists_of_leaves {operand : Operand β} {run : List α}
    (leaves : run.map function = operand.leaves) :
    ∃ lifted : Operand α, lifted.leaves = run ∧ lifted.map function = operand := by
  cases operand with
  | literal token =>
    simp only [Operand.leaves, List.map_eq_singleton_iff] at leaves
    obtain ⟨token, rfl, rfl⟩ := leaves
    exact ⟨.literal token, rfl, rfl⟩
  | reference path =>
    obtain ⟨path, rfl, rfl⟩ := Path.exists_of_leaves leaves
    exact ⟨.reference path, rfl, rfl⟩

theorem RightHandSide.exists_of_leaves {value : RightHandSide β} {run : List α}
    (leaves : run.map function = value.leaves) :
    ∃ lifted : RightHandSide α, lifted.leaves = run ∧ lifted.map function = value := by
  cases value with
  | single operand =>
    obtain ⟨operand, rfl, rfl⟩ := Operand.exists_of_leaves leaves
    exact ⟨.single operand, rfl, rfl⟩
  | expression first more =>
    simp only [RightHandSide.leaves, List.map_eq_cons_iff] at leaves
    obtain ⟨first, more, rfl, rfl, rfl⟩ := leaves
    exact ⟨.expression first more, rfl, rfl⟩

theorem exists_of_inspectedLeaves {inspected : List (β × Option (Operand β))} {run : List α}
    (leaves : run.map function = inspectedLeaves inspected) :
    ∃ lifted : List (α × Option (Operand α)), inspectedLeaves lifted = run ∧
      lifted.map (fun (question, operand) =>
        (function question, operand.map (Operand.map function))) = inspected := by
  induction inspected generalizing run with
  | nil =>
    simp only [inspectedLeaves, List.flatMap_nil, List.map_eq_nil_iff] at leaves
    subst leaves
    exact ⟨[], rfl, rfl⟩
  | cons link inspected inductionHypothesis =>
    obtain ⟨question, operand⟩ := link
    simp only [inspectedLeaves, List.flatMap_cons, List.map_eq_cons_iff, List.cons_append,
      List.map_eq_append_iff] at leaves
    obtain ⟨question, _, rfl, rfl, operandRun, rest, rfl, operandLeaves, restLeaves⟩ := leaves
    obtain ⟨lifted, rfl, rfl⟩ := inductionHypothesis restLeaves
    cases operand with
    | none =>
      simp only [Option.map_none, Option.getD_none, List.map_eq_nil_iff] at operandLeaves
      subst operandLeaves
      exact ⟨(question, none) :: lifted, rfl, rfl⟩
    | some operand =>
      obtain ⟨operand, rfl, rfl⟩ := Operand.exists_of_leaves operandLeaves
      exact ⟨(question, some operand) :: lifted, rfl, rfl⟩

theorem exists_of_segmentLeaves {segments : List (β × Segment β)} {run : List α}
    (leaves : run.map function = segmentLeaves segments) :
    ∃ lifted : List (α × Segment α), segmentLeaves lifted = run ∧
      lifted.map (fun (question, segment) => (function question, segment.map function)) =
        segments := by
  induction segments generalizing run with
  | nil =>
    simp only [segmentLeaves, List.flatMap_nil, List.map_eq_nil_iff] at leaves
    subst leaves
    exact ⟨[], rfl, rfl⟩
  | cons link segments inductionHypothesis =>
    obtain ⟨question, segment⟩ := link
    simp only [segmentLeaves, List.flatMap_cons, List.map_eq_cons_iff, List.cons_append,
      List.map_eq_append_iff] at leaves
    obtain ⟨question, _, rfl, rfl, segmentRun, rest, rfl, segmentLeaves, restLeaves⟩ := leaves
    obtain ⟨lifted, rfl, rfl⟩ := inductionHypothesis restLeaves
    obtain ⟨segment, rfl, rfl⟩ := Segment.exists_of_leaves segmentLeaves
    exact ⟨(question, segment) :: lifted, rfl, rfl⟩

theorem Binding.exists_of_leaves {binding : Binding β} {run : List α}
    (leaves : run.map function = binding.leaves) :
    ∃ lifted : Binding α, lifted.leaves = run ∧ lifted.map function = binding := by
  obtain ⟨equals, value, inspected⟩ := binding
  simp only [Binding.leaves, List.map_eq_cons_iff, List.map_eq_append_iff] at leaves
  obtain ⟨equals, _, rfl, rfl, valueRun, inspectedRun, rfl, valueLeaves, inspectedLeaves⟩ := leaves
  obtain ⟨value, rfl, rfl⟩ := RightHandSide.exists_of_leaves valueLeaves
  obtain ⟨inspected, rfl, rfl⟩ := exists_of_inspectedLeaves inspectedLeaves
  exact ⟨⟨equals, value, inspected⟩, rfl, rfl⟩

theorem Statement.exists_of_leaves {statement : Statement β} {run : List α}
    (leaves : run.map function = statement.leaves) :
    ∃ lifted : Statement α, lifted.leaves = run ∧ lifted.map function = statement := by
  obtain ⟨first, more, binding⟩ := statement
  simp only [Statement.leaves, List.map_eq_append_iff] at leaves
  obtain ⟨_, bindingRun, rfl, ⟨firstRun, moreRun, rfl, firstLeaves, moreLeaves⟩,
    bindingLeaves⟩ := leaves
  obtain ⟨first, rfl, rfl⟩ := Segment.exists_of_leaves firstLeaves
  obtain ⟨more, rfl, rfl⟩ := exists_of_segmentLeaves moreLeaves
  cases binding with
  | none =>
    simp only [Option.map_none, Option.getD_none, List.map_eq_nil_iff] at bindingLeaves
    subst bindingLeaves
    exact ⟨⟨first, more, none⟩, rfl, rfl⟩
  | some binding =>
    obtain ⟨binding, rfl, rfl⟩ := Binding.exists_of_leaves bindingLeaves
    exact ⟨⟨first, more, some binding⟩, rfl, rfl⟩

theorem Header.exists_of_leaves {header : Header β} {run : List α}
    (leaves : run.map function = header.leaves) :
    ∃ lifted : Header α, lifted.leaves = run ∧ lifted.map function = header := by
  obtain ⟨path, arrow, memberType⟩ := header
  simp only [Header.leaves, List.map_eq_append_iff, List.map_eq_cons_iff] at leaves
  obtain ⟨pathRun, _, rfl, pathLeaves, arrow, typeRun, rfl, rfl, typeLeaves⟩ := leaves
  obtain ⟨path, rfl, rfl⟩ := Path.exists_of_leaves pathLeaves
  cases memberType with
  | none =>
    simp only [Option.map_none, Option.getD_none, List.map_eq_nil_iff] at typeLeaves
    subst typeLeaves
    exact ⟨⟨path, arrow, none⟩, rfl, rfl⟩
  | some link =>
    obtain ⟨colon, type⟩ := link
    simp only [Option.map_some, Option.getD_some, List.map_eq_cons_iff,
      List.map_eq_nil_iff] at typeLeaves
    obtain ⟨colon, _, rfl, rfl, type, _, rfl, rfl, rfl⟩ := typeLeaves
    exact ⟨⟨path, arrow, some (colon, type)⟩, rfl, rfl⟩

end Lift

end ParaLang.Grammar
