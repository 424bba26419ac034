import ParaLang.Proofs.Expression.Operations

/-! # Numeric promotion

An operation on a float yields a float, and so does a power of integers with a negative exponent; any
other operation on integers yields an integer.  No float is lost on the stack, since each operation
passes on what it takes.  So the operands of an expression and its powers tell whether its value is a
float. -/

namespace ParaLang.Expression

open ParaLang.Annotations (isOperand)

def isFloat (operand : Option Value) : Bool :=
  operand.any Value.isFloat

section Floats

variable {root : Scope} {stack after final : Operands} {token : AnnotatedToken}
  {tokens : List AnnotatedToken}

/-- A float comes as an operand or from a negative exponent, and stays. -/
theorem any_isFloat_of_push (pushed : push root stack token = .ok after) :
    after.any isFloat = (stack.any isFloat || isFloat (operand? root token) ||
      (operation? stack token).toList.any Operation.isNegativePower) := by
  cases handles_of_push pushed with
  | operand role =>
    rw [operation?_eq_none role]
    simp [Bool.or_comm]
  | @operation operation below result applies waiting yields =>
    obtain ⟨-, isNumber⟩ := Operation.numbers_of_result yields
    have taken : (operation.operands.reverse.map some).any isFloat =
        operation.operands.any Value.isFloat := by
      rw [List.any_map, List.any_reverse]
      rfl
    rw [applies, operand?_eq_none (noOperand_of_operation applies), waiting]
    calc (some result :: below).any isFloat
        = (operation.operands.any Value.isFloat || operation.isNegativePower ||
            below.any isFloat) := by
          rw [List.any_cons, isFloat, Option.any_some, isNumber.isFloat_eq, Operation.yieldsFloat]
      _ = _ := by
        rw [List.any_append, taken]
        simp [isFloat, Bool.or_right_comm]

theorem any_isFloat_of_pushAll (pushed : pushAll root stack tokens = .ok final) :
    final.any isFloat = (stack.any isFloat || tokens.any (fun token => isFloat (operand? root token)) ||
      (operationsFrom root stack tokens).any Operation.isNegativePower) := by
  -- a float that an operation takes lives on in its result
  induction tokens generalizing stack with
  | nil =>
    cases pushed
    simp [operationsFrom]
  | cons token rest inductionHypothesis =>
    obtain ⟨after, first, later⟩ := pushAll_cons_iff.mp pushed
    rw [inductionHypothesis later, any_isFloat_of_push first, List.any_cons, operationsFrom, first,
      List.any_append]
    ac_rfl

end Floats

/-! ## The evaluation of an expression -/

section Evaluation

variable {verbosity : Nat} {root : Scope} {run : List AnnotatedToken} {value : Option Value}

theorem numeric_of_numbers (succeeds : (evaluate verbosity root run).outcome = .ok value)
    (numbers : ∀ token ∈ run, isOperand token.role = true → Numeric (operand? root token)) :
    Numeric value := by
  by_cases applies : applied none run = []
  · obtain ⟨token, single, rfl⟩ := single_of_nothing_applied succeeds applies
    have operand : token ∈ operandsOf run := by simp [single]
    obtain ⟨member, role⟩ := List.mem_filter.mp operand
    exact numbers token member role
  · obtain ⟨-, result, rfl, isNumber⟩ := numeric_of_applied succeeds applies
    exact isNumber.isNumeric_eq

/-- An integer that an expression yields is in range: either an operation has checked it, or it is an
operand. -/
theorem inRange_of_integers {number : Int}
    (succeeds : (evaluate verbosity root run).outcome = .ok (some (.int number)))
    (integers : ∀ token ∈ run, ∀ integer, operand? root token = some (.int integer) →
      Value.inRange integer = true) : Value.inRange number = true := by
  by_cases applies : applied none run = []
  · obtain ⟨token, single, isOperand⟩ := single_of_nothing_applied succeeds applies
    have operand : token ∈ operandsOf run := by simp [single]
    exact integers token (List.mem_filter.mp operand).1 number isOperand.symm
  · obtain ⟨-, result, equal, isNumber⟩ := numeric_of_applied succeeds applies
    cases equal
    cases isNumber with
    | int fits => exact fits

theorem any_operands_iff {postfixed : List AnnotatedToken} (arranged : toPostfix run = .ok postfixed) :
    postfixed.any (fun token => isFloat (operand? root token)) = true ↔
      ∃ token ∈ run, isFloat (operand? root token) = true := by
  have operand {token : AnnotatedToken} (float : isFloat (operand? root token) = true) :
      isOperand token.role = true := by
    by_contra noOperand
    rw [operand?_eq_none (Bool.eq_false_iff.mpr noOperand)] at float
    cases float
  rw [List.any_eq_true]
  constructor
  · rintro ⟨token, member, float⟩
    exact ⟨token, (mem_operands_iff arranged (operand float)).mp member, float⟩
  · rintro ⟨token, member, float⟩
    exact ⟨token, (mem_operands_iff arranged (operand float)).mpr member, float⟩

/-- An expression of numbers yields a float if one of its operands is one or a power of integers has a
negative exponent.  Otherwise it yields an integer, which is in range if the operands are. -/
theorem evaluate_promotes (succeeds : (evaluate verbosity root run).outcome = .ok value)
    (numbers : ∀ token ∈ run, isOperand token.role = true → Numeric (operand? root token)) :
    ∃ result, value = some result ∧
      (result.isFloat = true ↔ (∃ token ∈ run, isFloat (operand? root token) = true) ∨
        ∃ operation ∈ operations root run, operation.isNegativePower = true) ∧
      (result.isFloat = false → ∃ number, result = .int number ∧
        ((∀ token ∈ run, ∀ integer, operand? root token = some (.int integer) →
          Value.inRange integer = true) → Value.inRange number = true)) := by
  obtain ⟨result, rfl, isNumeric⟩ := (Option.any_eq_true ..).mp (numeric_of_numbers succeeds numbers)
  obtain ⟨postfixed, arranged, pushed⟩ := evaluate_eq_ok_iff.mp succeeds
  refine ⟨result, rfl, ?_, fun noFloat => ?_⟩
  · have floats := any_isFloat_of_pushAll pushed
    simp only [List.any_cons, List.any_nil, Bool.or_false, Bool.false_or] at floats
    rw [← any_operands_iff arranged, operations, arranged, ← List.any_eq_true, ← Bool.or_eq_true,
      ← floats]
    rfl
  · cases result with
    | int number => exact ⟨number, rfl, inRange_of_integers succeeds⟩
    | float => cases noFloat
    | string | bool | null => cases isNumeric

/-- The product of a variable with a float, and its square. -/
theorem evaluate_promotes_products :
    let root : Scope := { entries := [("n", { name := "n", value := .int 3, type := .string "int" })] }
    let name : AnnotatedToken :=
      { role := .lookup, literal := "n", kind := .identifier, line := 1, number := 3 }
    let times : AnnotatedToken :=
      { role := .operator, literal := "*", kind := .star, line := 1, number := 4 }
    let half : AnnotatedToken :=
      { role := .value, literal := "0.5", kind := .float, line := 1, number := 5,
        value := some (.float 0.5) }
    (∃ product, (evaluate 0 root [name, times, half]).outcome = .ok (some product) ∧
      product.isFloat = true) ∧
    ∃ square, (evaluate 0 root [name, times, name]).outcome = .ok (some (.int square)) ∧
      Value.inRange square = true := by
  intro root name times half
  have ofName : isOperand name.role = true → Numeric (operand? root name) := fun _ => rfl
  have ofHalf : isOperand half.role = true → Numeric (operand? root half) := fun _ => rfl
  have ofTimes : isOperand times.role = true → Numeric (operand? root times) := nofun
  have numbers : ∀ token ∈ [name, times, half], isOperand token.role = true →
      Numeric (operand? root token) := by
    simpa only [List.forall_mem_cons] using ⟨ofName, ofTimes, ofHalf, by simp⟩
  have mixed : ∃ product, (evaluate 0 root [name, times, half]).outcome = .ok product := ⟨_, rfl⟩
  have squared : (evaluate 0 root [name, times, name]).outcome = .ok (some (.int 9)) := rfl
  obtain ⟨value, succeeds⟩ := mixed
  obtain ⟨product, rfl, float, -⟩ := evaluate_promotes succeeds numbers
  obtain ⟨square, equal, -, integer⟩ := evaluate_promotes squared fun token member =>
    numbers token (by simp at member ⊢; tauto)
  cases equal
  obtain ⟨number, equal, inRange⟩ := integer rfl
  cases equal
  refine ⟨⟨product, succeeds, float.mpr (.inl ⟨half, by simp, rfl⟩)⟩, 9, squared, inRange ?_⟩
  have ofInteger {operand : Option Value} (isThree : operand = some (.int 3) ∨ operand = none)
      (integer : Int) (known : operand = some (.int integer)) : Value.inRange integer = true := by
    rcases isThree with rfl | rfl
    · cases known
      decide
    · cases known
  simpa only [List.forall_mem_cons] using
    ⟨ofInteger (.inl rfl), ofInteger (.inr rfl), ofInteger (.inl rfl), by simp⟩

end Evaluation

end ParaLang.Expression
