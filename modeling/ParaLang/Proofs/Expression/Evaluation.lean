import ParaLang.Annotations.Expression
import ParaLang.Expression.Evaluation
import ParaLang.Proofs.Result

/-! # How expressions are evaluated

Each token of a postfix expression leaves the value of an operand, or takes the values that wait for
an operator and leaves the result of the operation.  This says so once for a token, for a run of
tokens and for a whole expression. -/

namespace ParaLang.Expression

open ParaLang.Annotations (isOperand)

/-- What an operator does with the values that wait. -/
inductive Operation where
  | negation (operand : Value)
  | binary (symbol : String) (left right : Value)

namespace Operation

def operands : Operation → List Value
  | negation operand => [operand]
  | binary _ left right => [left, right]

def result (place : Place) : Operation → Result Value
  | negation operand => Arithmetic.negate operand place
  | binary symbol left right => Arithmetic.apply symbol left right place

end Operation

/-! ## One token -/

/-- The value of an operand: that of a literal or of the variable that it names. -/
def operand? (root : Scope) (token : AnnotatedToken) : Option Value :=
  match token.role with
  | .value => token.value
  | .lookup => (Table.get? root.entries token.literal).map Variable.value
  | _ => none

/-- The operation that a token applies to what waits, if it is an operator and the values are
there. -/
def operation? (stack : Operands) (token : AnnotatedToken) : Option Operation :=
  if isOperand token.role then none
  else if token.literal = negationSymbol then
    match stack with
    | some operand :: _ => some (.negation operand)
    | _ => none
  else
    match stack with
    | some right :: some left :: _ => some (.binary token.literal left right)
    | _ => none

section Tokens

variable {root : Scope} {stack after : Operands} {token : AnnotatedToken} {operation : Operation}

theorem isOperand_iff {role : Role} : isOperand role = true ↔ role = .value ∨ role = .lookup := by
  simp [isOperand]

theorem role_of_noOperand (noOperand : isOperand token.role = false) :
    token.role ≠ .value ∧ token.role ≠ .lookup := by
  rw [← not_or, ← isOperand_iff, noOperand]
  exact Bool.false_ne_true

theorem operand?_eq_none (noOperand : isOperand token.role = false) :
    operand? root token = none := by
  obtain ⟨noValue, noLookup⟩ := role_of_noOperand noOperand
  unfold operand?
  split
  · next isValue => exact absurd isValue noValue
  · next isLookup => exact absurd isLookup noLookup
  · rfl

theorem operation?_eq_none (isOperand : isOperand token.role = true) :
    operation? stack token = none := by
  unfold operation?
  rw [if_pos isOperand]

theorem noOperand_of_operation (applies : operation? stack token = some operation) :
    isOperand token.role = false := by
  cases role : isOperand token.role with
  | false => rfl
  | true =>
    rw [operation?_eq_none role] at applies
    cases applies

/-- An operator takes its operands and leaves its result. -/
theorem push_operation (root : Scope) (applies : operation? stack token = some operation) :
    ∃ below, stack = operation.operands.reverse.map some ++ below ∧
      push root stack token = (some · :: below) <$> operation.result token.place := by
  have noOperand := noOperand_of_operation applies
  obtain ⟨noValue, noLookup⟩ := role_of_noOperand noOperand
  simp only [operation?, noOperand, Bool.false_eq_true, if_false] at applies
  unfold push
  split
  · next isValue => exact absurd isValue noValue
  · next isLookup => exact absurd isLookup noLookup
  · split at applies
    · next isNegation =>
      split at applies <;> cases applies
      next operand below =>
      refine ⟨below, rfl, ?_⟩
      rw [if_pos isNegation]
      rfl
    · next binary =>
      split at applies <;> cases applies
      next right left below =>
      refine ⟨below, rfl, ?_⟩
      rw [if_neg binary]
      rfl

theorem operand_of_push (isOperand : isOperand token.role = true)
    (pushed : push root stack token = .ok after) : after = operand? root token :: stack := by
  unfold push at pushed
  split at pushed
  · next isValue =>
    cases pushed
    rw [operand?, isValue]
  · next isLookup =>
    split at pushed <;> cases pushed
    next found =>
    simp [operand?, isLookup, found]
  · next noValue noLookup => exact ((isOperand_iff.mp isOperand).elim noValue noLookup).elim

/-- An operator that is handled finds the values that it is applied to. -/
theorem applies_of_push (noOperand : isOperand token.role = false)
    (pushed : push root stack token = .ok after) :
    ∃ operation, operation? stack token = some operation := by
  obtain ⟨noValue, noLookup⟩ := role_of_noOperand noOperand
  unfold push at pushed
  split at pushed
  · next isValue => exact absurd isValue noValue
  · next isLookup => exact absurd isLookup noLookup
  · split at pushed
    · next isNegation =>
      match stack, pushed with
      | some operand :: _, _ => exact ⟨.negation operand, by simp [operation?, noOperand, isNegation]⟩
      | none :: _, pushed => cases pushed
      | [], pushed => cases pushed
    · next binary =>
      match stack, pushed with
      | some right :: some left :: _, _ =>
        exact ⟨.binary token.literal left right, by simp [operation?, noOperand, binary]⟩
      | none :: some _ :: _, pushed => cases pushed
      | _ :: none :: _, pushed => cases pushed
      | [_], pushed => cases pushed
      | [], pushed => cases pushed

/-- What a token does to the values that wait when it is handled. -/
inductive Handles (root : Scope) (stack : Operands) (token : AnnotatedToken) : Operands → Prop where
  | operand (isOperand : isOperand token.role = true) :
      Handles root stack token (operand? root token :: stack)
  | operation {operation : Operation} {below : Operands} {result : Value}
      (applies : operation? stack token = some operation)
      (waiting : stack = operation.operands.reverse.map some ++ below)
      (yields : operation.result token.place = .ok result) :
      Handles root stack token (some result :: below)

theorem handles_of_push (pushed : push root stack token = .ok after) :
    Handles root stack token after := by
  cases role : isOperand token.role with
  | true =>
    rw [operand_of_push role pushed]
    exact .operand role
  | false =>
    obtain ⟨operation, applies⟩ := applies_of_push role pushed
    obtain ⟨below, waiting, equation⟩ := push_operation root applies
    rw [equation] at pushed
    cases yields : operation.result token.place with
    | error failure =>
      rw [yields] at pushed
      cases pushed
    | ok result =>
      rw [yields] at pushed
      cases pushed
      exact .operation applies waiting yields

end Tokens

/-! ## A run of tokens -/

section Runs

variable {verbosity : Nat} {root : Scope} {stack final : Operands} {value : Option Value}
  {run tokens postfixed : List AnnotatedToken}

theorem pushAll_cons_iff {token : AnnotatedToken} : pushAll root stack (token :: tokens) = .ok final ↔
    ∃ after, push root stack token = .ok after ∧ pushAll root after tokens = .ok final :=
  Result.bind_eq_ok_iff

/-- Operands heap up. -/
theorem pushAll_operands (operands : ∀ token ∈ tokens, isOperand token.role = true)
    (pushed : pushAll root stack tokens = .ok final) :
    final = (tokens.map (operand? root)).reverse ++ stack := by
  induction tokens generalizing stack with
  | nil =>
    cases pushed
    rfl
  | cons token rest inductionHypothesis =>
    obtain ⟨isOperand, restOperands⟩ := List.forall_mem_cons.mp operands
    obtain ⟨after, first, later⟩ := pushAll_cons_iff.mp pushed
    rw [operand_of_push isOperand first] at later
    rw [inductionHypothesis restOperands later]
    simp

theorem outcome_evaluate (verbosity : Nat) (root : Scope) (run : List AnnotatedToken) :
    (evaluate verbosity root run).outcome = toPostfix run >>= evaluatePostfix root := by
  simp only [evaluate, Traced.outcome_bind, Traced.outcome_lift, Traced.outcome_note,
    Result.ok_bind]

/-- A run has a value if it leaves nothing else. -/
theorem evaluatePostfix_eq_ok_iff : evaluatePostfix root postfixed = .ok value ↔
    pushAll root [] postfixed = .ok [value] := by
  unfold evaluatePostfix
  rw [Result.bind_eq_ok_iff]
  constructor
  · rintro ⟨stack, pushed, ends⟩
    split at ends
    · cases ends
      exact pushed
    · split at ends <;> cases ends
    · split at ends <;> cases ends
  · intro pushed
    exact ⟨_, pushed, rfl⟩

theorem evaluate_eq_ok_iff : (evaluate verbosity root run).outcome = .ok value ↔
    ∃ postfixed, toPostfix run = .ok postfixed ∧ pushAll root [] postfixed = .ok [value] := by
  simp only [outcome_evaluate, Result.bind_eq_ok_iff, evaluatePostfix_eq_ok_iff]

end Runs

end ParaLang.Expression
