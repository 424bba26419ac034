import ParaLang.Proofs.Expression.Arrangement
import ParaLang.Proofs.Expression.Evaluation

/-! # The names of an expression

Putting an expression into postfix order brings in no names, and its evaluation reads no variables
but those of its names in the root scope.  So trees that agree on these give it the same value. -/

namespace ParaLang.Expression

/-- Whatever the tokens look up is one of the names. -/
def LooksUp (names : String → Prop) (tokens : List AnnotatedToken) : Prop :=
  ∀ token ∈ tokens, token.role = .lookup → names token.literal

section Names

variable {names : String → Prop} {tokens stack : List AnnotatedToken} {token : AnnotatedToken}

theorem looksUp_nil : LooksUp names [] := by
  simp [LooksUp]

theorem looksUp_cons : LooksUp names (token :: tokens) ↔
    (token.role = .lookup → names token.literal) ∧ LooksUp names tokens :=
  List.forall_mem_cons

/-! ## Postfix order -/

/-- The computation fails, or its value has a property. -/
abbrev Yields {α : Type} (property : α → Prop) (result : Result α) : Prop :=
  Settles (fun _ => True) property result

theorem yields_true {α : Type} (result : Result α) : Yields (fun _ => True) result := by
  cases result <;> trivial

/-- A sign looks nothing up. -/
theorem arrangeable_names : Arrangeable (fun _ => True)
    (fun token => token.role = .lookup → names token.literal) where
  refused _ _ _ _ := trivial
  ranked _ _ _ := yields_true _
  negated _ _ := by rintro ⟨⟩

theorem yields_arrange (previous : Option Role) (ofStack : LooksUp names stack)
    (looksUp : LooksUp names tokens) : Yields (LooksUp names) (arrange previous stack tokens) :=
  arrangeable_names.settles_arrange looksUp previous ofStack

/-- Tokens in postfix order have no arrow among them. -/
theorem role_ne_arrow_of_arrange {previous : Option Role} {output : List AnnotatedToken}
    (arranged : arrange previous stack tokens = .ok output) :
    ∀ token ∈ tokens, token.role ≠ .arrow := by
  induction tokens generalizing previous stack output with
  | nil => simp
  | cons token rest inductionHypothesis =>
    obtain ⟨_, _, _, shunts, arranged, -⟩ := arrange_cons_iff.mp arranged
    exact List.forall_mem_cons.mpr ⟨shunts.role_ne_arrow, inductionHypothesis arranged⟩

/-! ## Evaluation -/

/-- An expression with an arrow has no value in any tree. -/
theorem toOption_evaluate_arrow (hasArrow : ∃ token ∈ tokens, token.role = .arrow)
    (verbosity : Nat) (root : Scope) :
    (evaluate verbosity root tokens).outcome.toOption = none := by
  rw [outcome_evaluate]
  cases arranged : toPostfix tokens with
  | error failure => rfl
  | ok postfixed =>
    obtain ⟨token, member, isArrow⟩ := hasArrow
    exact absurd isArrow (role_ne_arrow_of_arrange arranged token member)

variable {root other : Scope}
  (same : ∀ name, names name → root.find? [name] = other.find? [name])

include same

theorem push_congr (stack : Operands) (ofToken : token.role = .lookup → names token.literal) :
    push root stack token = push other stack token := by
  unfold push
  split
  · rfl
  · next isLookup =>
    have found : Table.get? root.entries token.literal = Table.get? other.entries token.literal :=
      same _ (ofToken isLookup)
    rw [found]
  · rfl

theorem pushAll_congr (stack : Operands) (looksUp : LooksUp names tokens) :
    pushAll root stack tokens = pushAll other stack tokens := by
  induction tokens generalizing stack with
  | nil => rfl
  | cons token rest inductionHypothesis =>
    obtain ⟨ofToken, ofRest⟩ := looksUp_cons.mp looksUp
    rw [pushAll, pushAll, push_congr same stack ofToken]
    exact bind_congr fun stack => inductionHypothesis stack ofRest

/-- An expression has the same value in trees that agree on its names. -/
theorem evaluate_congr (verbosity : Nat) (looksUp : LooksUp names tokens) :
    (evaluate verbosity root tokens).outcome = (evaluate verbosity other tokens).outcome := by
  rw [outcome_evaluate, outcome_evaluate]
  cases arranged : toPostfix tokens with
  | error failure => rfl
  | ok postfixed =>
    have ofPostfixed : LooksUp names postfixed :=
      (yields_arrange none looksUp_nil looksUp).of_ok arranged
    simp only [Result.ok_bind, evaluatePostfix, pushAll_congr same [] ofPostfixed]

end Names

end ParaLang.Expression
