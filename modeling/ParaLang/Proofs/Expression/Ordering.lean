import Mathlib
import ParaLang.Proofs.Expression.Contents
import ParaLang.Proofs.Expression.Infix

/-! # Ordered expressions

Evaluation never asks whether the operands and operators of an expression alternate; it only counts
operands.  Each token adds at most its weight to the operands that wait, and a run weighs one only if
no operator stands where an operand belongs.  So a run with a value whose operands are apart is an
infix expression. -/

namespace ParaLang

namespace Expression

open ParaLang.Annotations (isOperand juxtaposed)

/-! ## Weights -/

/-- How many waiting operands a token adds.  An operator of an unknown symbol is never applied; it
weighs less than one that can be. -/
def weight (token : AnnotatedToken) : Int :=
  match token.role with
  | .value | .lookup => 1
  | .leftParen => 0
  | _ =>
    if token.literal = negationSymbol then 0
    else if (BinaryOperator.ofSymbol? token.literal).isSome then -1
    else -2

def totalWeight (tokens : List AnnotatedToken) : Int :=
  (tokens.map weight).sum

@[simp] theorem totalWeight_nil : totalWeight [] = 0 := rfl

@[simp] theorem totalWeight_cons (token : AnnotatedToken) (tokens : List AnnotatedToken) :
    totalWeight (token :: tokens) = weight token + totalWeight tokens := by
  simp [totalWeight]

@[simp] theorem totalWeight_append (tokens others : List AnnotatedToken) :
    totalWeight (tokens ++ others) = totalWeight tokens + totalWeight others := by
  simp [totalWeight]

theorem weight_binary {token : AnnotatedToken} (isOperator : token.role = .operator)
    (binary : token.literal ≠ negationSymbol) : weight token ≤ -1 ∧
      (weight token = -1 → (BinaryOperator.ofSymbol? token.literal).isSome = true) := by
  simp only [weight, isOperator, if_neg binary]
  split <;> simp_all

@[simp] theorem weight_negation (token : AnnotatedToken) : weight (negation token) = 0 := rfl

theorem isSome_ofSymbol?_of_apply {symbol : String} {left right result : Value} {place : Place}
    (applied : Arithmetic.apply symbol left right place = .ok result) :
    (BinaryOperator.ofSymbol? symbol).isSome = true := by
  cases known : BinaryOperator.ofSymbol? symbol with
  | some operator => rfl
  | none =>
    have unknown : Arithmetic.operatorOf symbol place = place.refuse (.unknownOperator symbol) := by
      rw [Arithmetic.operatorOf, known]
    unfold Arithmetic.apply at applied
    rw [unknown] at applied
    split at applied
    all_goals simp only [Place.refuse, fail, Result.bind_eq_ok_iff] at applied
    all_goals simp at applied

/-- A token adds no more waiting operands than it weighs. -/
theorem length_of_push {root : Scope} {stack after : Operands} {token : AnnotatedToken}
    (pushed : push root stack token = .ok after) :
    (after.length : Int) ≤ stack.length + weight token := by
  unfold push at pushed
  split at pushed
  case h_1 isValue =>
    cases pushed
    simp [weight, isValue]
  case h_2 isLookup =>
    split at pushed <;> cases pushed
    simp [weight, isLookup]
  case h_3 noValue noLookup =>
    split at pushed
    case isTrue isNegation =>
      cases stack with
      | nil => cases pushed
      | cons operand below =>
        simp only [Result.bind_eq_ok_iff] at pushed
        obtain ⟨_, -, _, -, pushed⟩ := pushed
        cases pushed
        cases role : token.role <;> simp_all [weight]
    case isFalse noNegation =>
      match stack, pushed with
      | right :: left :: below, pushed =>
        simp only [Result.bind_eq_ok_iff] at pushed
        obtain ⟨_, -, _, -, _, applied, pushed⟩ := pushed
        have known := isSome_ofSymbol?_of_apply applied
        cases pushed
        cases role : token.role <;> simp_all [weight]

theorem length_of_pushAll {root : Scope} {stack after : Operands} {tokens : List AnnotatedToken}
    (pushed : pushAll root stack tokens = .ok after) :
    (after.length : Int) ≤ stack.length + totalWeight tokens := by
  induction tokens generalizing stack with
  | nil =>
    cases pushed
    simp
  | cons token rest inductionHypothesis =>
    obtain ⟨between, first, later⟩ := pushAll_cons_iff.mp pushed
    have atFirst := length_of_push first
    have atLater := inductionHypothesis later
    rw [totalWeight_cons]
    omega

/-! ## Order -/

/-- An operand or an expression in parentheses ends here. -/
def endsOperand (role : Role) : Bool :=
  isOperand role || role == .rightParen

/-- An operand or an expression in parentheses starts here. -/
def startsOperand (role : Role) : Bool :=
  isOperand role || role == .leftParen

/-- Two neighbours of which the right one does not start an operand behind the end of another. -/
def Separate (left right : AnnotatedToken) : Prop :=
  (endsOperand left.role && startsOperand right.role) = false

/-- The order of the tokens of an expression, where an operand is expected or one has ended, inside a
number of open parentheses. -/
inductive Ordered : Bool → Nat → List AnnotatedToken → Prop where
  | done : Ordered false 0 []
  | operand {depth : Nat} {token : AnnotatedToken} {rest : List AnnotatedToken} :
      isOperand token.role = true → (token.role = .value → token.value.isSome = true) →
      Ordered false depth rest → Ordered true depth (token :: rest)
  | sign {depth : Nat} {token : AnnotatedToken} {rest : List AnnotatedToken} :
      token.role = .operator → token.literal = "+" ∨ token.literal = "-" →
      Ordered true depth rest → Ordered true depth (token :: rest)
  | opening {depth : Nat} {token : AnnotatedToken} {rest : List AnnotatedToken} :
      token.role = .leftParen → Ordered true (depth + 1) rest → Ordered true depth (token :: rest)
  | binary {depth : Nat} {token : AnnotatedToken} {rest : List AnnotatedToken} :
      token.role = .operator → (BinaryOperator.ofSymbol? token.literal).isSome = true →
      Ordered true depth rest → Ordered false depth (token :: rest)
  | closing {depth : Nat} {token : AnnotatedToken} {rest : List AnnotatedToken} :
      token.role = .rightParen → Ordered false depth rest → Ordered false (depth + 1) (token :: rest)

/-- The parentheses that wait on a stack. -/
def openings (stack : List AnnotatedToken) : Nat :=
  stack.countP (·.role == .leftParen)

theorem openings_of_release {symbol : String} {stack released below : List AnnotatedToken}
    (releases : release symbol stack = .ok (released, below)) :
    totalWeight stack = totalWeight released + totalWeight below ∧
      openings stack = openings below := by
  obtain ⟨rfl, operators⟩ := release_splits releases
  refine ⟨totalWeight_append released below, ?_⟩
  have none : openings released = 0 :=
    List.countP_eq_zero.mpr fun operator member => by simp [operators operator member]
  rw [openings, List.countP_append, ← openings, none, zero_add, ← openings]

theorem openings_of_unwind {stack output : List AnnotatedToken}
    (unwound : unwind stack = .ok output) : output = stack ∧ openings stack = 0 := by
  obtain ⟨rfl, closed⟩ := unwind_eq_ok_iff.mp unwound
  exact ⟨rfl, List.countP_eq_zero.mpr fun waiting member => by simp [closed waiting member]⟩

/-- What an extracted token carries: a literal has its value, and no operator is spelled like the
negation that a sign becomes. -/
structure Ordinary (token : AnnotatedToken) : Prop where
  valued : token.role = .value → token.value.isSome = true
  spelled : token.role = .operator → token.literal ≠ negationSymbol

/-- The weight that the remaining tokens can have: one if an operand is expected. -/
def room (ended : Bool) : Int :=
  if ended then 0 else 1

/-- The output of the remaining tokens weighs no more than what waits and the room there is, and only
tokens in order take all of it. -/
def Balanced (ended : Bool) (stack tokens output : List AnnotatedToken) : Prop :=
  totalWeight output ≤ totalWeight stack + room ended ∧
    (totalWeight output = totalWeight stack + room ended →
      Ordered (!ended) (openings stack) tokens)

section Balanced

variable {ended : Bool} {stack rest output : List AnnotatedToken} {token : AnnotatedToken}

theorem balanced_operand (expected : ended = false) (operand : isOperand token.role = true)
    (ordinary : Ordinary token) (later : Balanced true stack rest output) :
    Balanced ended stack (token :: rest) (token :: output) := by
  have one : weight token = 1 := by
    rcases isOperand_iff.mp operand with role | role <;> simp [weight, role]
  obtain ⟨bound, ordered⟩ := later
  simp only [Balanced, expected, totalWeight_cons, one, room] at bound ordered ⊢
  refine ⟨by simpa [add_comm] using bound, fun equal => ?_⟩
  apply Ordered.operand operand ordinary.valued
  apply ordered
  simp at equal ⊢
  omega

theorem balanced_sign {waiting : List AnnotatedToken} (expected : ended = false)
    (isOperator : token.role = .operator) (isSign : token.literal = "+" ∨ token.literal = "-")
    (weights : totalWeight waiting = totalWeight stack)
    (parentheses : openings waiting = openings stack)
    (later : Balanced false waiting rest output) : Balanced ended stack (token :: rest) output := by
  obtain ⟨bound, ordered⟩ := later
  rw [weights, parentheses] at ordered
  rw [weights] at bound
  subst expected
  exact ⟨bound, fun equal => .sign isOperator isSign (ordered equal)⟩

theorem balanced_binary {released below : List AnnotatedToken} (isOperator : token.role = .operator)
    (ordinary : Ordinary token) (releases : release token.literal stack = .ok (released, below))
    (later : Balanced false (token :: below) rest output) :
    Balanced ended stack (token :: rest) (released ++ output) := by
  obtain ⟨weights, parentheses⟩ := openings_of_release releases
  obtain ⟨atMost, known⟩ := weight_binary isOperator (ordinary.spelled isOperator)
  obtain ⟨bound, ordered⟩ := later
  simp only [totalWeight_cons, room] at bound ordered
  -- an operator where an operand is expected takes the room of the operand
  have noRoom : (0 : Int) ≤ room ended := by cases ended <;> decide
  simp only [Balanced, totalWeight_append, weights]
  refine ⟨by simp at bound; omega, fun equal => ?_⟩
  simp only [Bool.false_eq_true, if_false] at bound ordered
  cases ended with
  | false =>
    simp only [room, Bool.false_eq_true, if_false] at equal
    omega
  | true =>
    simp only [room, if_true] at equal
    have sameDepth : openings (token :: below) = openings stack := by
      rw [parentheses]
      simp [openings, isOperator]
    rw [← sameDepth]
    exact .binary isOperator (known (by omega)) (ordered (by omega))

theorem balanced_opening (expected : ended = false) (isLeft : token.role = .leftParen)
    (later : Balanced false (token :: stack) rest output) :
    Balanced ended stack (token :: rest) output := by
  have zero : weight token = 0 := by simp [weight, isLeft]
  have deeper : openings (token :: stack) = openings stack + 1 := by simp [openings, isLeft]
  obtain ⟨bound, ordered⟩ := later
  rw [totalWeight_cons, zero, zero_add] at bound ordered
  rw [deeper] at ordered
  subst expected
  exact ⟨bound, fun equal => .opening isLeft (ordered equal)⟩

theorem balanced_closing {opening : AnnotatedToken} {inside below : List AnnotatedToken}
    (isRight : token.role = .rightParen) (isLeft : opening.role = .leftParen)
    (noneInside : ∀ other ∈ inside, other.role ≠ .leftParen)
    (split : stack = inside ++ opening :: below) (later : Balanced true below rest output) :
    Balanced ended stack (token :: rest) (inside ++ output) := by
  have weights : totalWeight stack = totalWeight inside + totalWeight below := by
    rw [split, totalWeight_append, totalWeight_cons]
    simp [weight, isLeft]
  have deeper : openings stack = openings below + 1 := by
    have none : inside.countP (·.role == .leftParen) = 0 :=
      List.countP_eq_zero.mpr (by simpa using noneInside)
    rw [split, openings, List.countP_append, none, List.countP_cons]
    simp [isLeft, openings]
  obtain ⟨bound, ordered⟩ := later
  simp only [Balanced, totalWeight_append, weights, deeper, room] at bound ordered ⊢
  refine ⟨by split <;> simp at bound <;> omega, fun equal => ?_⟩
  cases ended with
  | false =>
    simp at equal bound
    omega
  | true => exact .closing isRight (ordered (by simp at equal ⊢; omega))

end Balanced

/-- What postfix order makes of separate tokens is balanced. -/
theorem balanced_arrange {ended : Bool} {previous : Option Role}
    {stack tokens output : List AnnotatedToken} (expects : expectsOperand previous = !ended)
    (start : ∀ first ∈ tokens.head?, (ended && startsOperand first.role) = false)
    (separate : tokens.IsChain Separate) (ordinary : ∀ token ∈ tokens, Ordinary token)
    (arranged : arrange previous stack tokens = .ok output) :
    Balanced ended stack tokens output := by
  induction tokens generalizing ended previous stack output with
  | nil =>
    obtain ⟨rfl, none⟩ := openings_of_unwind arranged
    cases ended with
    | false => simp [Balanced, room]
    | true => simpa [Balanced, room, none] using Ordered.done
  | cons token rest inductionHypothesis =>
    obtain ⟨ordinaryToken, ordinaryRest⟩ := List.forall_mem_cons.mp ordinary
    obtain ⟨next, separateRest⟩ := List.isChain_cons.mp separate
    have atStart : (ended && startsOperand token.role) = false := start token rfl
    obtain ⟨added, waiting, later, shunts, laterArranged, rfl⟩ := arrange_cons_iff.mp arranged
    have goesOn {role : Role} (isRole : token.role = role)
        (expects : expectsOperand (some role) = !endsOperand role) :
        Balanced (endsOperand role) waiting rest later := by
      subst isRole
      exact inductionHypothesis expects next separateRest ordinaryRest laterArranged
    cases shunts with
    | operand role =>
      have operand := isOperand_iff.mpr role
      have expected : ended = false := by simpa [startsOperand, operand] using atStart
      refine balanced_operand expected operand ordinaryToken ?_
      rcases role with role | role <;> exact goesOn role rfl
    | plus role expected sign =>
      exact balanced_sign (by simpa [expects] using expected) role (.inl sign) rfl rfl
        (goesOn role rfl)
    | minus role expected sign =>
      exact balanced_sign (by simpa [expects] using expected) role (.inr sign) (by simp)
        (by simp [openings, negation]) (goesOn role rfl)
    | binary role noSign releases =>
      exact balanced_binary role ordinaryToken releases (goesOn role rfl)
    | opening role =>
      rw [role] at atStart
      exact balanced_opening (by simpa [startsOperand, isOperand] using atStart) role
        (goesOn role rfl)
    | closing role isOpening noneInside split =>
      exact balanced_closing role isOpening noneInside split (goesOn role rfl)

/-- Separate tokens with a value are in order. -/
theorem ordered_of_evaluate {verbosity : Nat} {root : Scope} {run : List AnnotatedToken}
    {value : Option Value} (separate : run.IsChain Separate) (ordinary : ∀ token ∈ run, Ordinary token)
    (succeeds : (evaluate verbosity root run).outcome = .ok value) : Ordered true 0 run := by
  obtain ⟨postfixed, arranged, pushed⟩ := evaluate_eq_ok_iff.mp succeeds
  have least : 1 ≤ totalWeight postfixed := by simpa using length_of_pushAll pushed
  obtain ⟨most, ordered⟩ := @balanced_arrange false none [] run postfixed rfl (by simp) separate
    ordinary arranged
  rw [totalWeight_nil] at most ordered
  have whole : totalWeight postfixed = 1 := by
    simp only [room, Bool.false_eq_true, if_false] at most
    omega
  exact ordered (by rw [whole]; rfl)

end Expression

end ParaLang
