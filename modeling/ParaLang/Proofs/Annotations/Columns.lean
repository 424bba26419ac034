import ParaLang.Annotations
import ParaLang.Proofs.Result

/-! # Annotation reads no columns

Annotated tokens and diagnostics tell the line of a token and its number in the line.  So annotation
gives the same for tokens that differ in their columns only. -/

namespace ParaLang

def Token.withoutColumn (token : Token) : Token :=
  { token with column := 0 }

namespace Annotations

namespace NumberedToken

def withoutColumn (place : NumberedToken) : NumberedToken :=
  { place with token := place.token.withoutColumn }

variable (place : NumberedToken)

@[simp] theorem kind_withoutColumn : place.withoutColumn.kind = place.kind := rfl

@[simp] theorem literal_withoutColumn : place.withoutColumn.literal = place.literal := rfl

@[simp] theorem inRole_withoutColumn (role : Role) :
    place.withoutColumn.inRole role = place.inRole role := rfl

theorem ofTokens_withoutColumn (count : Nat) (tokens : List Token) :
    ofTokens count (tokens.map Token.withoutColumn) =
      (ofTokens count tokens).map withoutColumn := by
  induction tokens generalizing count with
  | nil => rfl
  | cons token tokens inductionHypothesis =>
    simp only [List.map_cons, ofTokens, inductionHypothesis]
    rfl

end NumberedToken

open NumberedToken (withoutColumn)

section Columns

variable (state : State) (place : NumberedToken) (passed rest : List NumberedToken)

@[simp] theorem refuse_withoutColumn {α : Type} (cause : Cause) :
    (refuse cause place.withoutColumn : Result α) = refuse cause place := rfl

/-! ## Names and blocks -/

theorem nameRole_withoutColumn : nameRole state (rest.map withoutColumn) = nameRole state rest := by
  rcases rest with _ | ⟨next, _ | ⟨name, rest⟩⟩ <;> rfl

theorem headerLength?_withoutColumn :
    ∀ tokens, headerLength? (tokens.map withoutColumn) = headerLength? tokens
  | [] | [_] | [_, _] => rfl
  | name :: arrow :: after :: rest => by
    have later := headerLength?_withoutColumn (after :: rest)
    rw [List.map_cons] at later
    rw [List.map_cons, List.map_cons, List.map_cons, headerLength?.eq_def]
    simp only [later]
    rcases rest with _ | ⟨type, _ | ⟨brace, rest⟩⟩ <;> rfl

theorem readName_withoutColumn :
    readName state (passed.map withoutColumn) place.withoutColumn (rest.map withoutColumn) =
      readName state passed place rest := by
  have previous : (passed.map withoutColumn).head?.map NumberedToken.kind =
      passed.head?.map NumberedToken.kind := by
    cases passed <;> rfl
  have header := headerLength?_withoutColumn (place :: rest)
  rw [List.map_cons] at header
  simp only [readName, previous, header, nameRole_withoutColumn]
  rfl

theorem pathNames_withoutColumn (name : NumberedToken) :
    ∀ passed, pathNames name.withoutColumn (passed.map withoutColumn) = pathNames name passed
  | [] | [_] => rfl
  | arrow :: outer :: passed => by
    have later := pathNames_withoutColumn outer passed
    rw [List.map_cons, List.map_cons, pathNames, later]
    rfl

theorem headerBefore?_withoutColumn :
    headerBefore? (passed.map withoutColumn) = headerBefore? passed := by
  rcases passed with _ | ⟨first, _ | ⟨second, _ | ⟨third, _ | ⟨fourth, passed⟩⟩⟩⟩
  case nil | cons.nil => rfl
  case cons.cons.nil =>
    have names := pathNames_withoutColumn second []
    rw [List.map_nil] at names
    simp only [List.map_cons, List.map_nil, headerBefore?, names]
    rfl
  case cons.cons.cons.nil =>
    have names := pathNames_withoutColumn second [third]
    rw [List.map_cons, List.map_nil] at names
    simp only [List.map_cons, List.map_nil, headerBefore?, names]
    rfl
  case cons.cons.cons.cons =>
    have untyped := pathNames_withoutColumn second (third :: fourth :: passed)
    rw [List.map_cons, List.map_cons] at untyped
    simp only [List.map_cons, headerBefore?, untyped, pathNames_withoutColumn fourth passed]
    rfl

theorem openBlock_withoutColumn : openBlock state (passed.map withoutColumn) place.withoutColumn =
    openBlock state passed place := by
  rw [openBlock, headerBefore?_withoutColumn]
  rfl

/-! ## Modifiers and types -/

theorem modifyLatest_withoutColumn (output : List AnnotatedToken) :
    modifyLatest place.withoutColumn output = modifyLatest place output := by
  induction output with
  | nil => rfl
  | cons token earlier inductionHypothesis =>
    rw [modifyLatest, inductionHypothesis]
    rfl

theorem readModifier_withoutColumn :
    readModifier state place.withoutColumn = readModifier state place := by
  rw [readModifier, modifyLatest_withoutColumn]
  rfl

theorem typeClause_withoutColumn (type : Option String) :
    typeClause state type (rest.map withoutColumn) = typeClause state type rest := by
  induction rest generalizing state type with
  | nil => rfl
  | cons place rest inductionHypothesis =>
    simp only [List.map_cons, typeClause, readModifier_withoutColumn, inductionHypothesis]
    rfl

theorem readColon_withoutColumn : readColon state place.withoutColumn (rest.map withoutColumn) =
    readColon state place rest := by
  rw [readColon, typeClause_withoutColumn]
  rfl

/-! ## Values and assignments -/

theorem expressionItems_withoutColumn (previous : Option Role) :
    expressionItems previous (rest.map withoutColumn) = expressionItems previous rest := by
  induction rest generalizing previous with
  | nil => rfl
  | cons place rest inductionHypothesis =>
    have item : expressionItem place.withoutColumn = expressionItem place := rfl
    simp only [List.map_cons, expressionItems, inductionHypothesis, item]

theorem expressionToken_withoutColumn :
    expressionToken place.withoutColumn (rest.map withoutColumn) = expressionToken place rest := by
  have items := expressionItems_withoutColumn (place :: rest) none
  rw [List.map_cons] at items
  have literals : (rest.map withoutColumn).map NumberedToken.literal =
      rest.map NumberedToken.literal := by
    rw [List.map_map]
    rfl
  rw [expressionToken, items, List.map_cons, literals]
  rfl

theorem rightHandSide_withoutColumn :
    rightHandSide (rest.map withoutColumn) = (·.map withoutColumn) <$> rightHandSide rest := by
  induction rest with
  | nil => rfl
  | cons place rest inductionHypothesis =>
    simp only [List.map_cons, rightHandSide, inductionHypothesis]
    by_cases ends : endsRightHandSide place.kind = true
    · simp [ends]
    · by_cases second : place.kind = .equals
      · simp [second]
        rfl
      · cases rightHandSide rest <;> simp [ends, second]

theorem readLiteral_withoutColumn :
    readLiteral state (passed.map withoutColumn) place.withoutColumn =
      readLiteral state passed place := by
  cases passed <;> rfl

theorem readAssignment_withoutColumn :
    readAssignment state place.withoutColumn (rest.map withoutColumn) =
      readAssignment state place rest := by
  simp only [readAssignment, rightHandSide_withoutColumn]
  cases rightHandSide rest with
  | error failure => rfl
  | ok run =>
    cases run with
    | nil => rfl
    | cons first more =>
      have arithmetic : ((first :: more).map withoutColumn).any (isArithmetic ·.kind) =
          (first :: more).any (isArithmetic ·.kind) := by
        rw [List.any_map]
        rfl
      simp only [Result.map_ok, Result.ok_bind, List.map_cons] at arithmetic ⊢
      rw [arithmetic, expressionToken_withoutColumn, List.length_map]
      rfl

/-! ## The walk -/

theorem step_withoutColumn :
    step state (passed.map withoutColumn) place.withoutColumn (rest.map withoutColumn) =
      step state passed place rest := by
  unfold step
  simp only [NumberedToken.kind_withoutColumn, NumberedToken.inRole_withoutColumn,
    readName_withoutColumn, readColon_withoutColumn, readModifier_withoutColumn,
    readAssignment_withoutColumn, readLiteral_withoutColumn, openBlock_withoutColumn]
  rfl

theorem walk_withoutColumn (read : Nat) (tokens : List NumberedToken) :
    walk state (passed.map withoutColumn) read (tokens.map withoutColumn) =
      walk state passed read tokens := by
  induction tokens generalizing state passed read with
  | nil => rfl
  | cons place rest inductionHypothesis =>
    have goesOn (state : State) (read : Nat) := inductionHypothesis state (place :: passed) read
    simp only [List.map_cons] at goesOn
    cases read with
    | succ read => exact goesOn state read
    | zero =>
      simp only [List.map_cons, walk, step_withoutColumn, goesOn]
      rfl

end Columns

end Annotations

theorem annotate_withoutColumn (tokens : List Token) :
    annotate (tokens.map Token.withoutColumn) = annotate tokens := by
  have last : (tokens.map Token.withoutColumn).getLast?.any (·.kind = .endOfInput) =
      tokens.getLast?.any (·.kind = .endOfInput) := by
    rw [List.getLast?_map, Option.any_map]
    rfl
  rw [annotate, last, Annotations.NumberedToken.ofTokens_withoutColumn, annotate]
  have walked := Annotations.walk_withoutColumn {} [] 0 (Annotations.NumberedToken.ofTokens 0 tokens)
  rw [List.map_nil] at walked
  rw [walked]

end ParaLang
