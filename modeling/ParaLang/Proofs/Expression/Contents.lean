import Mathlib.Data.List.Basic
import ParaLang.Proofs.Expression.Arrangement
import ParaLang.Proofs.Expression.Evaluation

/-! # What an expression contains

Postfix order moves operators and nothing else.  The operands come out in their order, and each
operator comes out once, where a positive sign is dropped and a negative one becomes a negation.
Parentheses do not come out. -/

namespace ParaLang.Expression

open ParaLang.Annotations (isOperand)
open scoped List

def operandsOf (tokens : List AnnotatedToken) : List AnnotatedToken :=
  tokens.filter (isOperand ·.role)

def operatorsOf (tokens : List AnnotatedToken) : List AnnotatedToken :=
  tokens.filter (·.role == .operator)

/-- What is applied for a token behind one of role `previous`. -/
def appliedAs (previous : Option Role) (token : AnnotatedToken) : List AnnotatedToken :=
  if token.role ≠ .operator then []
  else if expectsOperand previous ∧ token.literal = "+" then []
  else if expectsOperand previous ∧ token.literal = "-" then [negation token]
  else [token]

/-- The operators of a run as they are applied. -/
def applied (previous : Option Role) : List AnnotatedToken → List AnnotatedToken
  | [] => []
  | token :: rest => appliedAs previous token ++ applied token.role rest

/-- A token that can wait for its end: an operator or an opening parenthesis. -/
def Waits (token : AnnotatedToken) : Prop :=
  token.role = .operator ∨ token.role = .leftParen

/-- What comes out of some tokens and those that wait in front of them. -/
structure ComesOut (previous : Option Role) (stack tokens output : List AnnotatedToken) : Prop where
  operands : operandsOf output = operandsOf tokens
  operators : (operatorsOf output).Perm (operatorsOf stack ++ applied previous tokens)
  nothingElse : ∀ token ∈ output, isOperand token.role = true ∨ token.role = .operator

section ComesOut

variable {previous : Option Role} {token : AnnotatedToken}
  {stack tokens added waiting output : List AnnotatedToken}

@[simp] theorem operandsOf_append (tokens others : List AnnotatedToken) :
    operandsOf (tokens ++ others) = operandsOf tokens ++ operandsOf others :=
  List.filter_append ..

@[simp] theorem operatorsOf_append (tokens others : List AnnotatedToken) :
    operatorsOf (tokens ++ others) = operatorsOf tokens ++ operatorsOf others :=
  List.filter_append ..

theorem operatorsOf_cons (isOperator : token.role = .operator) (tokens : List AnnotatedToken) :
    operatorsOf (token :: tokens) = token :: operatorsOf tokens :=
  List.filter_cons_of_pos (by simp [isOperator])

theorem operandsOf_operators (operators : ∀ token ∈ tokens, token.role = .operator) :
    operandsOf tokens = [] :=
  List.filter_eq_nil_iff.mpr fun token member => by simp [isOperand, operators token member]

/-- What a token adds to the output and to the operators that wait. -/
structure Passes (previous : Option Role) (stack : List AnnotatedToken) (token : AnnotatedToken)
    (added waiting : List AnnotatedToken) : Prop where
  operands : operandsOf added = operandsOf [token]
  operators : (operatorsOf added ++ operatorsOf waiting).Perm
    (operatorsOf stack ++ appliedAs previous token)
  nothingElse : ∀ other ∈ added, isOperand other.role = true ∨ other.role = .operator
  waits : ∀ other ∈ waiting, Waits other

theorem passes (shunts : Shunts previous stack token added waiting)
    (waits : ∀ other ∈ stack, Waits other) : Passes previous stack token added waiting := by
  cases shunts with
  | operand role =>
    have isOperand := isOperand_iff.mpr role
    have noOperator : token.role ≠ .operator := by
      rcases role with role | role <;> rw [role] <;> decide
    exact ⟨rfl, by simp [operatorsOf, appliedAs, noOperator], by simp [isOperand], waits⟩
  | plus role expected sign =>
    exact ⟨by simp [operandsOf, role, Annotations.isOperand],
      by simp [operatorsOf, appliedAs, role, expected, sign], by simp, waits⟩
  | minus role expected sign =>
    refine ⟨by simp [operandsOf, role, Annotations.isOperand], ?_, by simp,
      List.forall_mem_cons.mpr ⟨.inl rfl, waits⟩⟩
    have isNegation : appliedAs previous token = [negation token] := by
      simp [appliedAs, role, expected, sign]
    rw [isNegation]
    exact (List.perm_append_singleton _ _).symm
  | @binary released below role noSign releases =>
    obtain ⟨rfl, operators⟩ := release_splits releases
    obtain ⟨-, waitsBelow⟩ := List.forall_mem_append.mp waits
    refine ⟨?_, ?_, fun other member => .inr (operators other member),
      List.forall_mem_cons.mpr ⟨.inl role, waitsBelow⟩⟩
    · rw [operandsOf_operators operators, operandsOf_operators (by simp [role])]
    · have isItself : appliedAs previous token = [token] := by
        rw [appliedAs, if_neg (by simp [role]), if_neg fun sign => (noSign sign.1).1 sign.2,
          if_neg fun sign => (noSign sign.1).2 sign.2]
      rw [isItself, operatorsOf_cons role, operatorsOf_append]
      exact List.perm_middle.trans (List.perm_append_singleton _ _).symm
  | opening role =>
    exact ⟨by simp [operandsOf, role, Annotations.isOperand],
      by simp [operatorsOf, appliedAs, role], by simp, List.forall_mem_cons.mpr ⟨.inr role, waits⟩⟩
  | @closing inside below opening role isOpening noneInside split =>
    subst split
    obtain ⟨waitsInside, waitsBelow⟩ := List.forall_mem_append.mp waits
    have operators : ∀ other ∈ added, other.role = .operator := fun other member =>
      (waitsInside other member).resolve_right (noneInside other member)
    refine ⟨?_, ?_, fun other member => .inr (operators other member),
      (List.forall_mem_cons.mp waitsBelow).2⟩
    · rw [operandsOf_operators operators]
      simp [operandsOf, role, Annotations.isOperand]
    · simp [operatorsOf, appliedAs, role, isOpening]

/-- Operands come out in their order, and operators once each, through the stack. -/
theorem comesOut (arranged : arrange previous stack tokens = .ok output)
    (waits : ∀ other ∈ stack, Waits other) : ComesOut previous stack tokens output := by
  -- operators that come out later are counted with the stack on which they wait
  induction tokens generalizing previous stack output with
  | nil =>
    obtain ⟨rfl, closed⟩ := unwind_eq_ok_iff.mp arranged
    have operators : ∀ other ∈ output, other.role = .operator := fun other member =>
      (waits other member).resolve_right (closed other member)
    exact ⟨operandsOf_operators operators, by simp [applied], fun other member =>
      .inr (operators other member)⟩
  | cons token tokens inductionHypothesis =>
    obtain ⟨added, waiting, later, shunts, laterArranged, rfl⟩ := arrange_cons_iff.mp arranged
    obtain ⟨operands, operators, nothingElse, waitsLater⟩ := passes shunts waits
    obtain ⟨laterOperands, laterOperators, laterNothingElse⟩ :=
      inductionHypothesis laterArranged waitsLater
    refine ⟨?_, ?_, List.forall_mem_append.mpr ⟨nothingElse, laterNothingElse⟩⟩
    · rw [operandsOf_append, operands, laterOperands, ← operandsOf_append, List.singleton_append]
    · calc operatorsOf (added ++ later)
          = operatorsOf added ++ operatorsOf later := operatorsOf_append added later
        _ ~ operatorsOf added ++ (operatorsOf waiting ++ applied (some token.role) tokens) :=
          laterOperators.append_left _
        _ ~ operatorsOf stack ++ appliedAs previous token ++ applied (some token.role) tokens := by
          rw [← List.append_assoc]
          exact operators.append_right _
        _ = operatorsOf stack ++ applied previous (token :: tokens) := by
          rw [applied, List.append_assoc]

end ComesOut

end ParaLang.Expression
