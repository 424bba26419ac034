import ParaLang.Annotations
import ParaLang.Proofs.Expression.Contents
import ParaLang.Proofs.Expression.Infix
import ParaLang.Proofs.Token.Spelling

/-! # The operations of an expression

The evaluation of an expression pushes its operands and applies its operators to what waits.  An
operator works on numbers only, and its result is a number.  So what an expression yields tells what
its operands are, if any operator is applied. -/

namespace ParaLang

namespace Value

def isFloat : Value → Bool
  | .float _ => true
  | _ => false

/-- A float, or an integer within 32 bits; `isFloat` tells which of them. -/
inductive IsNumber : Bool → Value → Prop where
  | float (number : Float) : IsNumber true (.float number)
  | int {number : Int} (fits : inRange number = true) : IsNumber false (.int number)

theorem IsNumber.isNumeric_eq {isFloat : Bool} {value : Value} (isNumber : IsNumber isFloat value) :
    value.isNumeric = true := by
  cases isNumber <;> rfl

theorem IsNumber.isFloat_eq {isFloat : Bool} {value : Value} (isNumber : IsNumber isFloat value) :
    value.isFloat = isFloat := by
  cases isNumber <;> rfl

end Value

open Value (IsNumber)

/-! ## Arithmetic -/

namespace Arithmetic

variable {operator : BinaryOperator} {symbol : String} {place : Place} {value : Value}

theorem isNumber_checked {result : Int} (succeeds : checked result place = .ok value) :
    IsNumber false value := by
  unfold checked at succeeds
  split at succeeds
  · next fits =>
    cases succeeds
    exact .int fits
  · cases succeeds

theorem isNumber_floatPower {base exponent : Float}
    (succeeds : floatPower base exponent place = .ok value) : IsNumber true value := by
  unfold floatPower at succeeds
  split at succeeds
  · cases succeeds
  · simp only at succeeds
    split at succeeds
    · split at succeeds
      · cases succeeds
      · split at succeeds <;> cases succeeds
        exact .float _
    · cases succeeds
      exact .float _

/-- Only a power with a negative exponent leaves the integers. -/
theorem isNumber_onIntegers {left right : Int}
    (succeeds : onIntegers operator left right place = .ok value) :
    IsNumber (operator == .power && decide (right < 0)) value := by
  cases operator with
  | add | subtract | multiply => exact isNumber_checked succeeds
  | divide | remainder =>
    rw [onIntegers] at succeeds
    split at succeeds
    · cases succeeds
    · exact isNumber_checked succeeds
  | power =>
    rw [onIntegers] at succeeds
    split at succeeds
    · next negative =>
      obtain ⟨base, -, succeeds⟩ := Result.bind_eq_ok_iff.mp succeeds
      obtain ⟨exponent, -, succeeds⟩ := Result.bind_eq_ok_iff.mp succeeds
      simpa [negative] using isNumber_floatPower succeeds
    · next nonnegative =>
      split at succeeds
      · cases succeeds
      · simpa [nonnegative] using isNumber_checked succeeds

theorem isNumber_onFloats {left right : Float}
    (succeeds : onFloats operator left right place = .ok value) : IsNumber true value := by
  cases operator with
  | add | subtract | multiply =>
    cases succeeds
    exact .float _
  | divide | remainder =>
    rw [onFloats] at succeeds
    split at succeeds <;> cases succeeds
    exact .float _
  | power => exact isNumber_floatPower succeeds

theorem isPower_eq (known : BinaryOperator.ofSymbol? symbol = some operator) :
    (operator == .power) = (symbol == "^") := by
  unfold BinaryOperator.ofSymbol? at known
  split at known <;> cases known <;> decide

theorem known_of_operatorOf (known : operatorOf symbol place = .ok operator) :
    BinaryOperator.ofSymbol? symbol = some operator := by
  unfold operatorOf at known
  split at known
  · next isKnown =>
    cases known
    exact isKnown
  · cases known

end Arithmetic

namespace Expression

open ParaLang.Annotations (isOperand)

/-! ## Operations -/

namespace Operation

/-- A power of two integers, the second of which is negative. -/
def isNegativePower : Operation → Bool
  | binary symbol (.int _) (.int exponent) => symbol == "^" && decide (exponent < 0)
  | _ => false

/-- Whether the operation is done on floats. -/
def yieldsFloat (operation : Operation) : Bool :=
  operation.operands.any Value.isFloat || operation.isNegativePower

variable {operation : Operation} {place : Place} {value : Value}

/-- An operation with a result is one on numbers, and its result is a number of the kind that the
operands determine. -/
theorem numbers_of_result (succeeds : operation.result place = .ok value) :
    (∀ operand ∈ operation.operands, operand.isNumeric = true) ∧
      IsNumber operation.yieldsFloat value := by
  cases operation with
  | negation operand =>
    cases operand with
    | int number => exact ⟨by simp [operands, Value.isNumeric], Arithmetic.isNumber_checked succeeds⟩
    | float number =>
      cases succeeds
      exact ⟨by simp [operands, Value.isNumeric], .float _⟩
    | string | bool | null => cases succeeds
  | binary symbol left right =>
    have succeeds : Arithmetic.apply symbol left right place = .ok value := succeeds
    unfold Arithmetic.apply at succeeds
    split at succeeds
    case h_1 left right =>
      obtain ⟨operator, known, succeeds⟩ := Result.bind_eq_ok_iff.mp succeeds
      have isNumber := Arithmetic.isNumber_onIntegers succeeds
      rw [Arithmetic.isPower_eq (Arithmetic.known_of_operatorOf known)] at isNumber
      exact ⟨by simp [operands, Value.isNumeric], isNumber⟩
    case h_2 left right | h_3 left right =>
      obtain ⟨widened, -, succeeds⟩ := Result.bind_eq_ok_iff.mp succeeds
      obtain ⟨operator, -, succeeds⟩ := Result.bind_eq_ok_iff.mp succeeds
      exact ⟨by simp [operands, Value.isNumeric], Arithmetic.isNumber_onFloats succeeds⟩
    case h_4 left right =>
      obtain ⟨operator, -, succeeds⟩ := Result.bind_eq_ok_iff.mp succeeds
      exact ⟨by simp [operands, Value.isNumeric], Arithmetic.isNumber_onFloats succeeds⟩
    case h_5 => cases succeeds

/-- An operation on anything but numbers is invalid. -/
theorem invalid_result (improper : ∃ operand ∈ operation.operands, operand.isNumeric = false)
    (place : Place) : ∃ cause : Cause, operation.result place = place.refuse cause ∧
      cause.name = "InvalidExpression" := by
  cases operation with
  | negation operand =>
    obtain ⟨_, member, noNumber⟩ := improper
    rw [List.mem_singleton.mp member] at noNumber
    cases operand with
    | int | float => cases noNumber
    | string | bool | null => exact ⟨.cannotNegate _, rfl, rfl⟩
  | binary symbol left right =>
    refine ⟨.unsupportedOperands symbol left.typeName right.typeName, ?_, rfl⟩
    change Arithmetic.apply symbol left right place = _
    simp only [operands, List.mem_cons, List.not_mem_nil, or_false, exists_eq_or_imp,
      exists_eq_left] at improper
    unfold Arithmetic.apply
    split
    case h_5 => rfl
    all_goals simp [Value.isNumeric] at improper

end Operation

/-! ## A run of tokens -/

/-- The operations that tokens in postfix order apply, in turn. -/
def operationsFrom (root : Scope) (stack : Operands) : List AnnotatedToken → List Operation
  | [] => []
  | token :: rest =>
    (operation? stack token).toList ++
      match push root stack token with
      | .ok after => operationsFrom root after rest
      | .error _ => []

/-- The operations that the evaluation of an expression applies, in turn. -/
def operations (root : Scope) (run : List AnnotatedToken) : List Operation :=
  match toPostfix run with
  | .ok postfixed => operationsFrom root [] postfixed
  | .error _ => []

/-- A number, and not a missing value. -/
def Numeric (operand : Option Value) : Prop :=
  operand.any Value.isNumeric = true

section Runs

variable {root : Scope} {stack final : Operands} {tokens : List AnnotatedToken}
  {value : Option Value} {operation : Operation}

theorem nothing_beside {waiting : Option Value} {below : Operands}
    (operands : ∀ token ∈ tokens, isOperand token.role = true)
    (pushed : pushAll root (waiting :: below) tokens = .ok [value]) :
    tokens = [] ∧ below = [] ∧ value = waiting := by
  have single := pushAll_operands operands pushed
  obtain ⟨none, left⟩ | ⟨-, absurd⟩ := List.append_eq_singleton_iff.mp single.symm
  · cases left
    exact ⟨by simpa using none, rfl, rfl⟩
  · cases absurd

theorem numeric_waiting {below : Operands}
    (numbers : ∀ operand ∈ operation.operands, operand.isNumeric = true)
    (ofBelow : ∀ waiting ∈ below, Numeric waiting) :
    ∀ waiting ∈ operation.operands.reverse.map some ++ below, Numeric waiting := by
  rw [List.forall_mem_append]
  refine ⟨fun waiting member => ?_, ofBelow⟩
  obtain ⟨operand, isOperand, rfl⟩ := List.mem_map.mp member
  exact numbers operand (List.mem_reverse.mp isOperand)

/-- If a single value is left and an operator was applied, there were numbers only: a value that no
operator took would be left beside the result of the last one. -/
theorem numeric_of_pushAll (pushed : pushAll root stack tokens = .ok [value])
    (applies : ∃ token ∈ tokens, isOperand token.role = false) :
    (∀ waiting ∈ stack, Numeric waiting) ∧
      (∀ token ∈ tokens, isOperand token.role = true → Numeric (operand? root token)) ∧
      ∃ result, value = some result ∧ IsNumber result.isFloat result := by
  -- what waits is a number because an operator takes it later, up to the last one
  induction tokens generalizing stack with
  | nil => simp at applies
  | cons token rest inductionHypothesis =>
    obtain ⟨after, first, later⟩ := pushAll_cons_iff.mp pushed
    rw [List.forall_mem_cons]
    cases handles_of_push first with
    | operand role =>
      have appliesLater : ∃ token ∈ rest, isOperand token.role = false := by
        simpa [role] using applies
      obtain ⟨waiting, operands, ofValue⟩ := inductionHypothesis later appliesLater
      obtain ⟨ofToken, ofStack⟩ := List.forall_mem_cons.mp waiting
      exact ⟨ofStack, ⟨fun _ => ofToken, operands⟩, ofValue⟩
    | @operation operation below result operates waiting yields =>
      subst waiting
      obtain ⟨numbers, isNumber⟩ := Operation.numbers_of_result yields
      have role := noOperand_of_operation operates
      by_cases appliesLater : ∃ token ∈ rest, isOperand token.role = false
      · obtain ⟨waiting, operands, ofValue⟩ := inductionHypothesis later appliesLater
        obtain ⟨-, ofBelow⟩ := List.forall_mem_cons.mp waiting
        exact ⟨numeric_waiting numbers ofBelow, ⟨by simp [role], operands⟩, ofValue⟩
      · have onlyOperands : ∀ token ∈ rest, isOperand token.role = true := by
          simpa using appliesLater
        obtain ⟨rfl, rfl, rfl⟩ := nothing_beside onlyOperands later
        exact ⟨numeric_waiting numbers (by simp), by simp [role], result, rfl,
          isNumber.isFloat_eq ▸ isNumber⟩

/-- An operation on anything but numbers ends the evaluation. -/
theorem pushAll_invalid (member : operation ∈ operationsFrom root stack tokens)
    (improper : ∃ operand ∈ operation.operands, operand.isNumeric = false) :
    ∃ (place : Place) (cause : Cause), pushAll root stack tokens = place.refuse cause ∧
      cause.name = "InvalidExpression" := by
  induction tokens generalizing stack with
  | nil => cases member
  | cons token rest inductionHypothesis =>
    rcases List.mem_append.mp member with here | later
    · have applies := Option.mem_toList.mp here
      obtain ⟨below, -, equation⟩ := push_operation root applies
      obtain ⟨cause, refused, invalid⟩ := Operation.invalid_result improper token.place
      refine ⟨token.place, cause, ?_, invalid⟩
      rw [pushAll, equation, refused]
      rfl
    · cases pushed : push root stack token with
      | error failure => simp [pushed] at later
      | ok after =>
        rw [pushed] at later
        rw [pushAll, pushed]
        exact inductionHypothesis later

end Runs

/-! ## The evaluation of an expression -/

section Evaluation

variable {verbosity : Nat} {root : Scope} {run : List AnnotatedToken}

/-- The postfix order has operators exactly if the run applies any. -/
theorem exists_operator_iff {postfixed : List AnnotatedToken}
    (arranged : toPostfix run = .ok postfixed) :
    (∃ token ∈ postfixed, isOperand token.role = false) ↔ applied none run ≠ [] := by
  obtain ⟨-, operators, nothingElse⟩ := comesOut arranged (by simp)
  have length : (operatorsOf postfixed).length = (applied none run).length := operators.length_eq
  rw [← List.length_pos_iff, ← length, List.length_pos_iff_exists_mem]
  constructor
  · rintro ⟨token, member, noOperand⟩
    have role := (nothingElse token member).resolve_left (by simp [noOperand])
    exact ⟨token, List.mem_filter.mpr ⟨member, by simp [role]⟩⟩
  · rintro ⟨token, isOperator⟩
    obtain ⟨member, role⟩ := List.mem_filter.mp isOperator
    exact ⟨token, member, by simp [Annotations.isOperand, eq_of_beq role]⟩

theorem mem_operands_iff {postfixed : List AnnotatedToken} {token : AnnotatedToken}
    (arranged : toPostfix run = .ok postfixed) (isOperand : isOperand token.role = true) :
    token ∈ postfixed ↔ token ∈ run := by
  have same : operandsOf postfixed = operandsOf run := (comesOut arranged (by simp)).operands
  have both : token ∈ operandsOf postfixed ↔ token ∈ operandsOf run := by rw [same]
  simpa [operandsOf, isOperand] using both

theorem numeric_of_applied {value : Option Value}
    (succeeds : (evaluate verbosity root run).outcome = .ok value) (applies : applied none run ≠ []) :
    (∀ token ∈ run, isOperand token.role = true → Numeric (operand? root token)) ∧
      ∃ result, value = some result ∧ IsNumber result.isFloat result := by
  obtain ⟨postfixed, arranged, pushed⟩ := evaluate_eq_ok_iff.mp succeeds
  obtain ⟨-, operands, ofValue⟩ :=
    numeric_of_pushAll pushed ((exists_operator_iff arranged).mpr applies)
  refine ⟨fun token member role => ?_, ofValue⟩
  exact operands token ((mem_operands_iff arranged role).mpr member) role

theorem single_of_nothing_applied {value : Option Value}
    (succeeds : (evaluate verbosity root run).outcome = .ok value) (nothing : applied none run = []) :
    ∃ token, operandsOf run = [token] ∧ value = operand? root token := by
  obtain ⟨postfixed, arranged, pushed⟩ := evaluate_eq_ok_iff.mp succeeds
  have operands : ∀ token ∈ postfixed, isOperand token.role = true := by
    have none := (exists_operator_iff arranged).not.mpr (not_not.mpr nothing)
    simpa using none
  have single := pushAll_operands operands pushed
  have same : operandsOf postfixed = operandsOf run := (comesOut arranged (by simp)).operands
  rw [← same, operandsOf, List.filter_eq_self.mpr operands]
  rw [List.append_nil, eq_comm, List.reverse_eq_iff] at single
  obtain ⟨token, rfl, isValue⟩ := List.map_eq_singleton_iff.mp single
  exact ⟨token, rfl, isValue.symm⟩

/-- Operators work on numbers.  Where something is applied and the evaluation succeeds, every operand
is a number and so is the result; an operation on anything else is an invalid expression.  Where
nothing is applied the result is the only operand, whatever it is: positive signs ask nothing of
it. -/
theorem operators_need_numbers (verbosity : Nat) (root : Scope) (run : List AnnotatedToken) :
    (∀ value, (evaluate verbosity root run).outcome = .ok value →
      (applied none run ≠ [] →
        (∀ token ∈ run, isOperand token.role = true → Numeric (operand? root token)) ∧
          Numeric value) ∧
      (applied none run = [] →
        ∃ token, operandsOf run = [token] ∧ value = operand? root token)) ∧
    ∀ operation ∈ operations root run,
      (∃ operand ∈ operation.operands, operand.isNumeric = false) →
        ∃ (place : Place) (cause : Cause), cause.name = "InvalidExpression" ∧
          (evaluate verbosity root run).outcome = place.refuse cause := by
  refine ⟨fun value succeeds => ⟨fun applies => ?_, single_of_nothing_applied succeeds⟩,
    fun operation member improper => ?_⟩
  · obtain ⟨operands, result, rfl, isNumber⟩ := numeric_of_applied succeeds applies
    exact ⟨operands, isNumber.isNumeric_eq⟩
  · unfold operations at member
    split at member
    · next postfixed arranged =>
      obtain ⟨place, cause, refused, invalid⟩ := pushAll_invalid member improper
      refine ⟨place, cause, invalid, ?_⟩
      rw [outcome_evaluate, arranged, Result.ok_bind, evaluatePostfix, refused]
      rfl
    · cases member

/-- The difference of two numbers, and a text behind a positive and behind a negative sign. -/
theorem operators_need_numbers_signs :
    let number : AnnotatedToken :=
      { role := .value, literal := "3", kind := .int, line := 1, number := 3, value := some (.int 3) }
    let text : AnnotatedToken :=
      { role := .value, literal := "\"a\"", kind := .string, line := 1, number := 4,
        value := some (.string "a") }
    let plus : AnnotatedToken :=
      { role := .operator, literal := "+", kind := .plus, line := 1, number := 3 }
    let minus : AnnotatedToken :=
      { role := .operator, literal := "-", kind := .minus, line := 1, number := 3 }
    ((evaluate 0 {} [number, minus, number]).outcome = .ok (some (.int 0)) ∧
      applied none [number, minus, number] ≠ [] ∧ Numeric (operand? {} number)) ∧
    ((evaluate 0 {} [plus, text]).outcome = .ok (some (.string "a")) ∧
      applied none [plus, text] = [] ∧
      ∃ token, operandsOf [plus, text] = [token] ∧ some (.string "a") = operand? {} token) ∧
    Operation.negation (.string "a") ∈ operations {} [minus, text] ∧
      ∃ (place : Place) (cause : Cause), cause.name = "InvalidExpression" ∧
        (evaluate 0 {} [minus, text]).outcome = place.refuse cause := by
  intro number text plus minus
  have difference : (evaluate 0 {} [number, minus, number]).outcome = .ok (some (.int 0)) := rfl
  have subtracts : applied none [number, minus, number] ≠ [] := by decide
  have positive : (evaluate 0 {} [plus, text]).outcome = .ok (some (.string "a")) := rfl
  have nothing : applied none [plus, text] = [] := rfl
  have negates : Operation.negation (.string "a") ∈ operations {} [minus, text] :=
    List.mem_cons_self ..
  obtain ⟨numbers, -⟩ :=
    ((operators_need_numbers 0 {} [number, minus, number]).1 _ difference).1 subtracts
  have single := ((operators_need_numbers 0 {} [plus, text]).1 _ positive).2 nothing
  have invalid := (operators_need_numbers 0 {} [minus, text]).2 _ negates
    ⟨.string "a", List.mem_singleton_self _, rfl⟩
  exact ⟨⟨difference, subtracts, numbers number (List.mem_cons_self ..) rfl⟩,
    ⟨positive, nothing, single⟩, negates, invalid⟩

/-- The text `x=+"a"` gives its variable a text, though an operator stands in front of it. -/
theorem extracted_positiveText :
    ∃ tokens written token run, Token.tokenize "x=+\"a\"" = .ok tokens ∧
      annotate tokens = .ok written ∧ token ∈ written ∧ token.expression = some run ∧
      (∃ operator ∈ run, operator.role = .operator) ∧
      (evaluate 0 {} run).outcome = .ok (some (.string "a")) := by
  let tokens : List Token := [⟨.identifier, "x", 1, 1⟩, ⟨.equals, "=", 1, 2⟩, ⟨.plus, "+", 1, 3⟩,
    ⟨.string, "\"a\"", 1, 4⟩, ⟨.endOfInput, "", 1, 7⟩]
  have read : Token.tokenize "x=+\"a\"" = .ok tokens := by
    have characters : "x=+\"a\"".toList = ['x', '=', '+', '"', 'a', '"'] := by decide
    have name : Lexeme.scan ['x', '=', '+', '"', 'a', '"'] =
        some (.name, ['x'], ['=', '+', '"', 'a', '"']) := rfl
    have equals : Lexeme.scan ['=', '+', '"', 'a', '"'] =
        some (.symbol '=', ['='], ['+', '"', 'a', '"']) := rfl
    have plus : Lexeme.scan ['+', '"', 'a', '"'] =
        some (.symbol '+', ['+'], ['"', 'a', '"']) := rfl
    have closes : Lexeme.Closes ['a', '"'] := .plain (by decide) (by decide) (by decide) .quote
    have text : Lexeme.scan ['"', 'a', '"'] = some (.string, ['"', 'a', '"'], []) :=
      Lexeme.scan_quoted (closes.closeString_eq []) []
    rw [Token.tokenize, characters, Lexeme.cut_scanned name, Lexeme.cut_scanned equals,
      Lexeme.cut_scanned plus, Lexeme.cut_scanned text, Lexeme.cut_nil]
    rfl
  have extracts : ∃ written token run, annotate tokens = .ok written ∧ token ∈ written ∧
      token.expression = some run ∧ (∃ operator ∈ run, operator.role = .operator) ∧
      (evaluate 0 {} run).outcome = .ok (some (.string "a")) :=
    ⟨_, _, _, rfl, List.mem_cons_of_mem _ (List.mem_cons_of_mem _ (List.mem_cons_self ..)), rfl,
      ⟨_, List.mem_cons_self .., rfl⟩, rfl⟩
  obtain ⟨written, token, run, annotated, member, extracted, signed, succeeds⟩ := extracts
  exact ⟨tokens, written, token, run, read, annotated, member, extracted, signed, succeeds⟩

end Evaluation

end Expression

end ParaLang
