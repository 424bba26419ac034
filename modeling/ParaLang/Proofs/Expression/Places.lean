import ParaLang.Proofs.Alike
import ParaLang.Proofs.Expression.Evaluation

/-! # Places in expressions

The value of an expression does not depend on where its tokens stand, nor on which of them
annotation has inserted. -/

namespace ParaLang

/-- Two tokens of an expression that differ at most in their place. -/
structure SameItem (left right : AnnotatedToken) : Prop where
  role : left.role = right.role
  literal : left.literal = right.literal
  value : left.value = right.value

namespace Arithmetic

variable {place other : Place}

theorem alike_refuse {α : Type} {related : α → α → Prop} (cause : Cause) :
    Alike related (place.refuse cause) (other.refuse cause) := rfl

theorem alike_checked (result : Int) : Alike Eq (checked result place) (checked result other) := by
  unfold checked
  split
  · exact Alike.refl
  · exact alike_refuse _

theorem alike_floatPower (base exponent : Float) :
    Alike Eq (floatPower base exponent place) (floatPower base exponent other) := by
  unfold floatPower
  split
  · exact alike_refuse _
  · simp only
    split
    · split
      · exact alike_refuse _
      · split
        · exact alike_refuse _
        · exact Alike.refl
    · exact Alike.refl

theorem alike_onIntegers (operator : BinaryOperator) (left right : Int) :
    Alike Eq (onIntegers operator left right place) (onIntegers operator left right other) := by
  cases operator with
  | add | subtract | multiply => exact alike_checked _
  | divide | remainder =>
    simp only [onIntegers]
    split
    · exact alike_refuse _
    · exact alike_checked _
  | power =>
    simp only [onIntegers]
    split
    · refine Alike.refl.bind_eq fun value => ?_
      refine Alike.refl.bind_eq fun value => ?_
      exact alike_floatPower _ _
    · split
      · exact alike_refuse _
      · exact alike_checked _

theorem alike_onFloats (operator : BinaryOperator) (left right : Float) :
    Alike Eq (onFloats operator left right place) (onFloats operator left right other) := by
  cases operator with
  | add | subtract | multiply => exact Alike.refl
  | divide | remainder =>
    simp only [onFloats]
    split
    · exact alike_refuse _
    · exact Alike.refl
  | power => exact alike_floatPower _ _

theorem alike_operatorOf (symbol : String) :
    Alike Eq (operatorOf symbol place) (operatorOf symbol other) := by
  unfold operatorOf
  split
  · exact Alike.refl
  · exact alike_refuse _

theorem alike_apply (symbol : String) (left right : Value) :
    Alike Eq (apply symbol left right place) (apply symbol left right other) := by
  unfold apply
  split
  · refine (alike_operatorOf symbol).bind_eq fun value => ?_
    exact alike_onIntegers _ _ _
  · refine Alike.refl.bind_eq fun value => ?_
    refine (alike_operatorOf symbol).bind_eq fun value => ?_
    exact alike_onFloats _ _ _
  · refine Alike.refl.bind_eq fun value => ?_
    refine (alike_operatorOf symbol).bind_eq fun value => ?_
    exact alike_onFloats _ _ _
  · refine (alike_operatorOf symbol).bind_eq fun value => ?_
    exact alike_onFloats _ _ _
  · exact alike_refuse _

theorem alike_negate (operand : Value) :
    Alike Eq (negate operand place) (negate operand other) := by
  unfold negate
  split
  · exact alike_checked _
  · exact Alike.refl
  · exact alike_refuse _

end Arithmetic

namespace Expression

open List (Forall₂)

/-! ## Postfix order -/

theorem alike_release (symbol : String) {stack other : List AnnotatedToken}
    (same : Forall₂ SameItem stack other) :
    Alike (fun left right => Forall₂ SameItem left.1 right.1 ∧ Forall₂ SameItem left.2 right.2)
      (release symbol stack) (release symbol other) := by
  induction same with
  | nil => exact ⟨.nil, .nil⟩
  | @cons top otherTop below otherBelow sameTop sameBelow inductionHypothesis =>
    simp only [release, sameTop.role, sameTop.literal]
    split
    · refine Alike.refl.bind_eq fun value => ?_
      refine Alike.refl.bind_eq fun value => ?_
      split
      · refine inductionHypothesis.bind fun left right later => ?_
        exact ⟨.cons sameTop later.1, later.2⟩
      · exact ⟨.nil, .cons sameTop sameBelow⟩
    · exact ⟨.nil, .cons sameTop sameBelow⟩

theorem alike_unwind {stack other : List AnnotatedToken} (same : Forall₂ SameItem stack other) :
    Alike (Forall₂ SameItem) (unwind stack) (unwind other) := by
  induction same with
  | nil => exact .nil
  | @cons top otherTop below otherBelow sameTop sameBelow inductionHypothesis =>
    simp only [unwind, sameTop.role]
    split
    · exact Arithmetic.alike_refuse _
    · exact inductionHypothesis.bind fun left right later => .cons sameTop later

theorem same_dropWhile {stack other : List AnnotatedToken} (same : Forall₂ SameItem stack other) :
    Forall₂ SameItem (stack.dropWhile (·.role != .leftParen))
      (other.dropWhile (·.role != .leftParen)) := by
  induction same with
  | nil => exact .nil
  | @cons top otherTop below otherBelow sameTop sameBelow inductionHypothesis =>
    simp only [List.dropWhile_cons, sameTop.role]
    split
    · exact inductionHypothesis
    · exact .cons sameTop sameBelow

theorem same_takeWhile {stack other : List AnnotatedToken} (same : Forall₂ SameItem stack other) :
    Forall₂ SameItem (stack.takeWhile (·.role != .leftParen))
      (other.takeWhile (·.role != .leftParen)) := by
  induction same with
  | nil => exact .nil
  | @cons top otherTop below otherBelow sameTop sameBelow inductionHypothesis =>
    simp only [List.takeWhile_cons, sameTop.role]
    split
    · exact .cons sameTop inductionHypothesis
    · exact .nil

theorem alike_arrange {tokens other : List AnnotatedToken} (same : Forall₂ SameItem tokens other)
    (previous : Option Role) {stack otherStack : List AnnotatedToken}
    (sameStack : Forall₂ SameItem stack otherStack) :
    Alike (Forall₂ SameItem) (arrange previous stack tokens) (arrange previous otherStack other) := by
  induction same generalizing previous stack otherStack with
  | nil => exact alike_unwind sameStack
  | @cons token otherToken rest otherRest sameToken _ inductionHypothesis =>
    rw [arrange, arrange, ← sameToken.role, ← sameToken.literal]
    split
    case h_1 | h_2 =>
      exact (inductionHypothesis _ sameStack).bind fun _ _ later => .cons sameToken later
    case h_3 =>
      split
      · exact inductionHypothesis _ sameStack
      · split
        · exact inductionHypothesis _ (.cons ⟨rfl, rfl, rfl⟩ sameStack)
        · refine (alike_release _ sameStack).bind fun left right released => ?_
          refine (inductionHypothesis _ (.cons sameToken released.2)).bind fun _ _ later => ?_
          exact List.rel_append released.1 later
    case h_4 => exact inductionHypothesis _ (.cons sameToken sameStack)
    case h_5 =>
      have dropped := same_dropWhile sameStack
      have taken := same_takeWhile sameStack
      revert dropped
      cases stack.dropWhile (·.role != .leftParen) <;>
        cases otherStack.dropWhile (·.role != .leftParen) <;> intro dropped
      · exact Arithmetic.alike_refuse _
      · cases dropped
      · cases dropped
      · cases dropped with
        | cons _ below =>
          exact (inductionHypothesis _ below).bind fun _ _ later => List.rel_append taken later
    all_goals exact Arithmetic.alike_refuse _

/-! ## Evaluation -/

theorem alike_push (root : Scope) (stack : Operands) {token other : AnnotatedToken}
    (same : SameItem token other) : Alike Eq (push root stack token) (push root stack other) := by
  unfold push
  rw [← same.role, ← same.literal, ← same.value]
  split
  · exact Alike.refl
  · split
    · exact Alike.refl
    · exact Alike.failing _ _ _ _ _ _
  · split
    · split
      · refine Alike.refl.bind_eq fun value => ?_
        refine (Arithmetic.alike_negate _).bind_eq fun value => ?_
        exact Alike.refl
      · exact Arithmetic.alike_refuse _
    · split
      · refine Alike.refl.bind_eq fun value => ?_
        refine Alike.refl.bind_eq fun value => ?_
        refine (Arithmetic.alike_apply _ _ _).bind_eq fun value => ?_
        exact Alike.refl
      · exact Arithmetic.alike_refuse _

theorem alike_pushAll (root : Scope) {tokens other : List AnnotatedToken}
    (same : Forall₂ SameItem tokens other) (stack : Operands) :
    Alike Eq (pushAll root stack tokens) (pushAll root stack other) := by
  induction same generalizing stack with
  | nil => exact Alike.refl
  | @cons token otherToken rest otherRest sameToken _ inductionHypothesis =>
    refine (alike_push root stack sameToken).bind_eq fun value => ?_
    exact inductionHypothesis _

theorem alike_evaluatePostfix (root : Scope) {tokens other : List AnnotatedToken}
    (same : Forall₂ SameItem tokens other) :
    Alike Eq (evaluatePostfix root tokens) (evaluatePostfix root other) := by
  refine (alike_pushAll root same []).bind_eq fun stack => ?_
  have heads : (tokens.head?.isSome = other.head?.isSome) := by cases same <;> rfl
  have lasts : (tokens.getLast?.isSome = other.getLast?.isSome) := by
    cases same <;> simp [List.getLast?_cons]
  split
  · exact Alike.refl
  · cases first : tokens.head? <;> cases second : other.head? <;> simp [first, second] at heads
    · exact Alike.failing _ _ _ _ _ _
    · exact Arithmetic.alike_refuse _
  · cases first : tokens.getLast? <;> cases second : other.getLast? <;>
      simp [first, second] at lasts
    · exact Alike.refl
    · exact Arithmetic.alike_refuse _

/-- The value of an expression does not depend on the places of its tokens. -/
theorem alike_evaluate (verbosity otherVerbosity : Nat) (root : Scope)
    {tokens other : List AnnotatedToken} (same : Forall₂ SameItem tokens other) :
    Alike Eq (evaluate verbosity root tokens).outcome
      (evaluate otherVerbosity root other).outcome := by
  rw [outcome_evaluate, outcome_evaluate]
  exact (alike_arrange same none .nil).bind fun _ _ sorted => alike_evaluatePostfix root sorted

end Expression

end ParaLang
