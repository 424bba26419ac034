import Mathlib
import ParaLang.Proofs.Decimal.Integers
import ParaLang.Proofs.Expression.Arrangement
import ParaLang.Proofs.Expression.Evaluation

/-! # Expressions do not go wrong

On operands within 32 bits the evaluation of an extracted expression yields such a value or a
diagnostic at one of its tokens.  So every integer operation checks its result, every operator has
a rank, and no operand lacks a value. -/

namespace ParaLang

/-- An integer lies within 32 bits. -/
def Value.Fits (value : Value) : Prop :=
  ∀ number, value = .int number → -2147483648 ≤ number ∧ number ≤ 2147483647

theorem Value.inRange_iff {number : Int} :
    inRange number = true ↔ -2147483648 ≤ number ∧ number ≤ 2147483647 := by
  simp [inRange]

theorem Value.fits_int {number : Int} (inside : inRange number = true) : (int number).Fits := by
  rintro _ ⟨⟩
  exact inRange_iff.mp inside

/-! ## Arithmetic -/

namespace Arithmetic

variable {places : Place → Prop} {hollow : Prop} {place : Place} (inside : places place)

include inside

theorem settles_checked (result : Int) :
    Settles (Located places hollow) Value.Fits (checked result place) := by
  unfold checked
  split
  · rename_i inRange
    exact Value.fits_int inRange
  · exact settles_refuse inside _

theorem settles_floatPower (base exponent : Float) :
    Settles (Located places hollow) Value.Fits (floatPower base exponent place) := by
  have float (number : Float) : (Value.float number).Fits := by rintro _ ⟨⟩
  unfold floatPower
  split
  · exact settles_refuse inside _
  · simp only
    split
    · split
      · exact settles_refuse inside _
      · split
        · exact settles_refuse inside _
        · exact float _
    · exact float _

omit inside in
theorem settles_widen {number : Int} (fits : (Value.int number).Fits) :
    Settles (Located places hollow) (fun _ => True) (widen number) := by
  obtain ⟨lower, upper⟩ := fits number rfl
  obtain ⟨widened, isWidened⟩ := Binary64.ofInt?_of_bounds lower upper
  rw [widen, isWidened]
  trivial

theorem settles_onIntegers (operator : BinaryOperator) {left right : Int}
    (leftFits : (Value.int left).Fits) (rightFits : (Value.int right).Fits) :
    Settles (Located places hollow) Value.Fits (onIntegers operator left right place) := by
  cases operator with
  | add | subtract | multiply => exact settles_checked inside _
  | divide | remainder =>
    simp only [onIntegers]
    split
    · exact settles_refuse inside _
    · exact settles_checked inside _
  | power =>
    simp only [onIntegers]
    split
    · exact (settles_widen leftFits).bind fun _ _ =>
        (settles_widen rightFits).bind fun _ _ => settles_floatPower inside _ _
    · split
      · exact settles_refuse inside _
      · exact settles_checked inside _

theorem settles_onFloats (operator : BinaryOperator) (left right : Float) :
    Settles (Located places hollow) Value.Fits (onFloats operator left right place) := by
  have float (number : Float) : (Value.float number).Fits := by rintro _ ⟨⟩
  cases operator with
  | add | subtract | multiply => exact float _
  | divide | remainder =>
    simp only [onFloats]
    split
    · exact settles_refuse inside _
    · exact float _
  | power => exact settles_floatPower inside left right

theorem settles_operatorOf (symbol : String) :
    Settles (Located places hollow) (fun _ => True) (operatorOf symbol place) := by
  unfold operatorOf
  split
  · trivial
  · exact settles_refuse inside _

theorem settles_apply (symbol : String) {left right : Value} (leftFits : left.Fits)
    (rightFits : right.Fits) :
    Settles (Located places hollow) Value.Fits (apply symbol left right place) := by
  have operator := @settles_operatorOf places hollow place inside symbol
  unfold apply
  split
  · exact operator.bind fun _ _ => settles_onIntegers inside _ leftFits rightFits
  · exact (settles_widen leftFits).bind fun _ _ =>
      operator.bind fun _ _ => settles_onFloats inside _ _ _
  · exact (settles_widen rightFits).bind fun _ _ =>
      operator.bind fun _ _ => settles_onFloats inside _ _ _
  · exact operator.bind fun _ _ => settles_onFloats inside _ _ _
  · exact settles_refuse inside _

theorem settles_negate (operand : Value) :
    Settles (Located places hollow) Value.Fits (negate operand place) := by
  unfold negate
  split
  · exact settles_checked inside _
  · rintro _ ⟨⟩
  · exact settles_refuse inside _

end Arithmetic

namespace Expression

variable {places : Place → Prop} {hollow : Prop}

/-! ## Postfix order -/

/-- A token of an expression has its place, a literal a value that fits, and an operator a rank. -/
structure SoundItem (places : Place → Prop) (token : AnnotatedToken) : Prop where
  inside : places token.place
  valued : token.role = .value → ∃ value, token.value = some value ∧ value.Fits
  ranked : token.role = .operator → (rank? token.literal).isSome

def SoundItems (places : Place → Prop) (tokens : List AnnotatedToken) : Prop :=
  ∀ token ∈ tokens, SoundItem places token

theorem soundItems_cons {token : AnnotatedToken} {tokens : List AnnotatedToken} :
    SoundItems places (token :: tokens) ↔ SoundItem places token ∧ SoundItems places tokens :=
  List.forall_mem_cons

theorem settles_rank {symbol : String} (ranked : (rank? symbol).isSome) :
    Settles (Located places hollow) (fun _ => True) (rank symbol) := by
  obtain ⟨level, isLevel⟩ := Option.isSome_iff_exists.mp ranked
  rw [rank, isLevel]
  trivial

theorem soundItem_negation {token : AnnotatedToken} (sound : SoundItem places token) :
    SoundItem places (negation token) where
  inside := sound.inside
  valued := by rintro ⟨⟩
  ranked := fun _ => rfl

theorem arrangeable_soundItem : Arrangeable (Located places hollow) (SoundItem places) where
  refused token _ sound _ := .inr ⟨token.place, sound.inside, rfl, rfl⟩
  ranked _ sound isOperator := settles_rank (sound.ranked isOperator)
  negated _ := soundItem_negation

/-! ## Evaluation -/

/-- An operand is there and fits. -/
def SoundOperand (operand : Option Value) : Prop :=
  ∃ value, operand = some value ∧ value.Fits

def SoundOperands (stack : Operands) : Prop :=
  ∀ operand ∈ stack, SoundOperand operand

theorem soundOperands_cons {operand : Option Value} {stack : Operands} :
    SoundOperands (operand :: stack) ↔ SoundOperand operand ∧ SoundOperands stack :=
  List.forall_mem_cons

theorem settles_require {operand : Option Value} (sound : SoundOperand operand) :
    Settles (Located places hollow) Value.Fits (Value.require operand) := by
  obtain ⟨value, rfl, fits⟩ := sound
  exact fits

/-- The variables that an expression can name hold values that fit. -/
def FittingRoot (root : Scope) : Prop :=
  ∀ name found, Table.get? root.entries name = some found → found.value.Fits

variable {root : Scope} (fitting : FittingRoot root)

include fitting

theorem settles_push {token : AnnotatedToken} (sound : SoundItem places token) {stack : Operands}
    (soundStack : SoundOperands stack) :
    Settles (Located places hollow) SoundOperands (push root stack token) := by
  have pushed {value : Value} (fits : value.Fits) {below : Operands}
      (soundBelow : SoundOperands below) : SoundOperands (some value :: below) :=
    soundOperands_cons.mpr ⟨⟨value, rfl, fits⟩, soundBelow⟩
  unfold push
  split
  · rename_i isValue
    exact soundOperands_cons.mpr ⟨sound.valued isValue, soundStack⟩
  · split
    · rename_i found isFound
      exact pushed (fitting _ _ isFound) soundStack
    · exact settles_fail sound.inside _ _
  · split
    · split
      · obtain ⟨soundOperand, soundBelow⟩ := soundOperands_cons.mp soundStack
        refine (settles_require soundOperand).bind fun value fits => ?_
        exact (Arithmetic.settles_negate sound.inside value).bind fun _ resultFits =>
          pushed resultFits soundBelow
      · exact settles_refuse sound.inside _
    · split
      · obtain ⟨soundRight, soundRest⟩ := soundOperands_cons.mp soundStack
        obtain ⟨soundLeft, soundBelow⟩ := soundOperands_cons.mp soundRest
        refine (settles_require soundLeft).bind fun left leftFits => ?_
        refine (settles_require soundRight).bind fun right rightFits => ?_
        exact (Arithmetic.settles_apply sound.inside _ leftFits rightFits).bind
          fun _ resultFits => pushed resultFits soundBelow
      · exact settles_refuse sound.inside _

theorem settles_pushAll {tokens : List AnnotatedToken} (sound : SoundItems places tokens)
    {stack : Operands} (soundStack : SoundOperands stack) :
    Settles (Located places hollow) SoundOperands (pushAll root stack tokens) := by
  induction tokens generalizing stack with
  | nil => exact soundStack
  | cons token rest inductionHypothesis =>
    obtain ⟨soundToken, soundRest⟩ := soundItems_cons.mp sound
    exact (settles_push fitting soundToken soundStack).bind fun _ soundNext =>
      inductionHypothesis soundRest soundNext

theorem settles_evaluatePostfix {postfixed : List AnnotatedToken}
    (sound : SoundItems places postfixed) (empty : postfixed = [] → hollow) :
    Settles (Located places hollow) SoundOperand (evaluatePostfix root postfixed) := by
  cases postfixed with
  | nil => exact .inl ⟨empty rfl, rfl⟩
  | cons first rest =>
    have start : SoundOperands [] := by simp [SoundOperands]
    refine (settles_pushAll fitting sound start).bind fun stack soundStack => ?_
    -- one operand must be left: with none the first item is blamed, with several the last one
    split
    · exact (soundOperands_cons.mp soundStack).1
    · exact settles_refuse (soundItems_cons.mp sound).1.inside _
    · have last := List.getLast?_eq_some_getLast (List.cons_ne_nil first rest)
      rw [last]
      exact settles_refuse (sound _ (List.getLast_mem _)).inside _

/-- The evaluation of a sound expression yields a value that fits, or a diagnostic. -/
theorem settles_evaluate (verbosity : Nat) {run : List AnnotatedToken}
    (sound : SoundItems places run) (empty : toPostfix run = .ok [] → hollow) :
    Settles (Located places hollow) SoundOperand (evaluate verbosity root run).outcome := by
  have start : SoundItems places [] := by simp [SoundItems]
  have settles := (@arrangeable_soundItem places hollow).settles_arrange sound none start
  rw [outcome_evaluate]
  cases arranged : toPostfix run with
  | error failure => exact settles.of_error arranged
  | ok postfixed =>
    refine settles_evaluatePostfix fitting (settles.of_ok arranged) fun isEmpty => empty ?_
    rw [arranged, isEmpty]

end Expression

end ParaLang
