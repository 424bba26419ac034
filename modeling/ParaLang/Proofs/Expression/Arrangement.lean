import ParaLang.Proofs.Settled

/-! # What postfix order keeps

Putting tokens into postfix order moves them, drops parentheses and turns signs into negations.  So
a property of the tokens that a negation inherits holds of the output, too, and a failure is a
matter of the ranks of the operators or is reported at one of the tokens. -/

namespace ParaLang.Expression

/-- The causes for which some tokens have no postfix order. -/
def isDisorder : Cause → Bool
  | .unmatchedOpening | .unmatchedClosing | .arrowInExpression | .strayInExpression _ => true
  | _ => false

/-- A property of tokens that postfix order keeps, if it fails for an allowed reason. -/
structure Arrangeable (allowed : Failure → Prop) (property : AnnotatedToken → Prop) : Prop where
  refused : ∀ token cause, property token → isDisorder cause = true →
    allowed (.diagnostic ⟨cause, token.place.line, token.place.number, none⟩)
  ranked : ∀ token, property token → token.role = .operator →
    Settles allowed (fun _ => True) (rank token.literal)
  negated : ∀ token, property token → property (negation token)

namespace Arrangeable

variable {allowed : Failure → Prop} {property : AnnotatedToken → Prop}
  {tokens stack : List AnnotatedToken}

theorem settles_release (arrangeable : Arrangeable allowed property) {token : AnnotatedToken}
    (ofToken : property token) (isOperator : token.role = .operator)
    (ofStack : ∀ other ∈ stack, property other) :
    Settles allowed (fun split => (∀ other ∈ split.1, property other) ∧
      ∀ other ∈ split.2, property other) (release token.literal stack) := by
  have nothing : ∀ other ∈ ([] : List AnnotatedToken), property other := by simp
  induction stack with
  | nil => exact ⟨nothing, nothing⟩
  | cons top below inductionHypothesis =>
    obtain ⟨ofTop, ofBelow⟩ := List.forall_mem_cons.mp ofStack
    unfold release
    split
    · next topIsOperator =>
      refine (arrangeable.ranked top ofTop topIsOperator).bind fun _ _ => ?_
      refine (arrangeable.ranked token ofToken isOperator).bind fun _ _ => ?_
      split
      · refine (inductionHypothesis ofBelow).bind fun split later => ?_
        exact ⟨List.forall_mem_cons.mpr ⟨ofTop, later.1⟩, later.2⟩
      · exact ⟨nothing, ofStack⟩
    · exact ⟨nothing, ofStack⟩

theorem settles_unwind (arrangeable : Arrangeable allowed property)
    (ofStack : ∀ other ∈ stack, property other) :
    Settles allowed (fun output => ∀ other ∈ output, property other) (unwind stack) := by
  induction stack with
  | nil => exact ofStack
  | cons top below inductionHypothesis =>
    obtain ⟨ofTop, ofBelow⟩ := List.forall_mem_cons.mp ofStack
    unfold unwind
    split
    · exact arrangeable.refused top _ ofTop rfl
    · exact (inductionHypothesis ofBelow).bind fun _ later =>
        List.forall_mem_cons.mpr ⟨ofTop, later⟩

theorem settles_arrange (arrangeable : Arrangeable allowed property)
    (ofTokens : ∀ other ∈ tokens, property other) (previous : Option Role)
    (ofStack : ∀ other ∈ stack, property other) :
    Settles allowed (fun output => ∀ other ∈ output, property other)
      (arrange previous stack tokens) := by
  -- every token goes to the output or to the stack, so both keep the property
  induction tokens generalizing previous stack with
  | nil => exact arrangeable.settles_unwind ofStack
  | cons token rest inductionHypothesis =>
    obtain ⟨ofToken, ofRest⟩ := List.forall_mem_cons.mp ofTokens
    have goesOn (previous : Option Role) {stack : List AnnotatedToken}
        (ofStack : ∀ other ∈ stack, property other) := inductionHypothesis ofRest previous ofStack
    have pushed {other : AnnotatedToken} {below : List AnnotatedToken} (ofOther : property other)
        (ofBelow : ∀ other ∈ below, property other) : ∀ each ∈ other :: below, property each :=
      List.forall_mem_cons.mpr ⟨ofOther, ofBelow⟩
    unfold arrange
    split
    case h_1 | h_2 =>
      exact (goesOn _ ofStack).bind fun _ later => pushed ofToken later
    case h_3 isOperator =>
      split
      · exact goesOn _ ofStack
      · split
        · exact goesOn _ (pushed (arrangeable.negated token ofToken) ofStack)
        · refine (arrangeable.settles_release ofToken isOperator ofStack).bind
            fun split released => ?_
          refine (goesOn _ (pushed ofToken released.2)).bind fun _ later => ?_
          exact List.forall_mem_append.mpr ⟨released.1, later⟩
    case h_4 => exact goesOn _ (pushed ofToken ofStack)
    case h_5 =>
      split
      · exact arrangeable.refused token _ ofToken rfl
      · next below dropped =>
        have ofBelow : ∀ other ∈ below, property other := fun other member =>
          ofStack other ((List.dropWhile_sublist _).subset
            (dropped ▸ List.mem_cons_of_mem _ member))
        refine (goesOn _ ofBelow).bind fun _ later => ?_
        exact List.forall_mem_append.mpr
          ⟨fun other member => ofStack other ((List.takeWhile_sublist _).subset member), later⟩
    all_goals exact arrangeable.refused token _ ofToken rfl

end Arrangeable

/-! ## One token -/

section Shunting

variable {previous : Option Role} {token : AnnotatedToken} {stack rest output : List AnnotatedToken}

/-- What a token does behind one of role `previous`: the output that it adds, and what waits on the
stack afterwards. -/
inductive Shunts (previous : Option Role) (stack : List AnnotatedToken) (token : AnnotatedToken) :
    List AnnotatedToken → List AnnotatedToken → Prop where
  | operand (role : token.role = .value ∨ token.role = .lookup) :
      Shunts previous stack token [token] stack
  | plus (role : token.role = .operator) (expected : expectsOperand previous = true)
      (sign : token.literal = "+") : Shunts previous stack token [] stack
  | minus (role : token.role = .operator) (expected : expectsOperand previous = true)
      (sign : token.literal = "-") : Shunts previous stack token [] (negation token :: stack)
  | binary {released below : List AnnotatedToken} (role : token.role = .operator)
      (noSign : expectsOperand previous = true → token.literal ≠ "+" ∧ token.literal ≠ "-")
      (releases : release token.literal stack = .ok (released, below)) :
      Shunts previous stack token released (token :: below)
  | opening (role : token.role = .leftParen) : Shunts previous stack token [] (token :: stack)
  | closing {inside below : List AnnotatedToken} {opening : AnnotatedToken}
      (role : token.role = .rightParen) (isOpening : opening.role = .leftParen)
      (noneInside : ∀ other ∈ inside, other.role ≠ .leftParen)
      (split : stack = inside ++ opening :: below) : Shunts previous stack token inside below

/-- Only operators are released, from the top of the stack. -/
theorem release_splits {symbol : String} {released below : List AnnotatedToken}
    (releases : release symbol stack = .ok (released, below)) :
    stack = released ++ below ∧ ∀ operator ∈ released, operator.role = .operator := by
  induction stack generalizing released with
  | nil =>
    cases releases
    simp
  | cons top rest inductionHypothesis =>
    unfold release at releases
    split at releases
    · next isOperator =>
      simp only [Result.bind_eq_ok_iff] at releases
      obtain ⟨_, -, _, -, releases⟩ := releases
      split at releases
      · obtain ⟨⟨inner, outer⟩, later, equal⟩ := Result.bind_eq_ok_iff.mp releases
        cases equal
        obtain ⟨split, operators⟩ := inductionHypothesis later
        exact ⟨congrArg (top :: ·) split, List.forall_mem_cons.mpr ⟨isOperator, operators⟩⟩
      · cases releases
        simp
    · cases releases
      simp

/-- At the end the whole stack comes out, if no parenthesis is left. -/
theorem unwind_eq_ok_iff :
    unwind stack = .ok output ↔ output = stack ∧ ∀ waiting ∈ stack, waiting.role ≠ .leftParen := by
  induction stack generalizing output with
  | nil => simp [unwind, eq_comm]
  | cons top below inductionHypothesis =>
    unfold unwind
    split
    · next isOpening =>
      simp [Place.refuse, fail, isOpening]
    · next noOpening =>
      simp only [Result.bind_eq_ok_iff, inductionHypothesis, Result.pure_eq_ok, Except.ok.injEq,
        List.forall_mem_cons]
      constructor
      · rintro ⟨_, ⟨rfl, noneBelow⟩, rfl⟩
        exact ⟨rfl, noOpening, noneBelow⟩
      · rintro ⟨rfl, -, noneBelow⟩
        exact ⟨below, ⟨rfl, noneBelow⟩, rfl⟩

/-- A stack is split at the topmost parenthesis. -/
theorem splits_iff {inside below : List AnnotatedToken} {opening : AnnotatedToken} :
    (stack.takeWhile (·.role != .leftParen) = inside ∧
      stack.dropWhile (·.role != .leftParen) = opening :: below) ↔
      opening.role = .leftParen ∧ (∀ other ∈ inside, other.role ≠ .leftParen) ∧
        stack = inside ++ opening :: below := by
  constructor
  · rintro ⟨rfl, dropped⟩
    have head := List.head?_dropWhile_not (·.role != .leftParen) stack
    rw [dropped] at head
    refine ⟨by simpa using head, fun other member => ?_, ?_⟩
    · simpa using List.all_eq_true.mp List.all_takeWhile other member
    · rw [← dropped, List.takeWhile_append_dropWhile]
  · rintro ⟨isOpening, noneInside, rfl⟩
    have above : ∀ other ∈ inside, (other.role != .leftParen) = true := by simpa using noneInside
    rw [List.takeWhile_append_of_pos above, List.dropWhile_append_of_pos above,
      List.takeWhile_cons_of_neg (by simp [isOpening]),
      List.dropWhile_cons_of_neg (by simp [isOpening]), List.append_nil]
    exact ⟨rfl, rfl⟩

/-- What a token does comes in front of what the tokens behind it do. -/
theorem arrange_of_shunts {added waiting : List AnnotatedToken}
    (shunts : Shunts previous stack token added waiting) :
    arrange previous stack (token :: rest) =
      (added ++ ·) <$> arrange (some token.role) waiting rest := by
  have inFront (added : List AnnotatedToken) (result : Result (List AnnotatedToken)) :
      (do return added ++ (← result)) = (added ++ ·) <$> result := by
    cases result <;> rfl
  rw [arrange]
  cases shunts with
  | operand role =>
    rcases role with role | role <;> simp only [role] <;> exact inFront [token] _
  | plus role expected sign => simp [role, expected, sign]
  | minus role expected sign => simp [role, expected, sign]
  | binary role noSign releases =>
    simp only [role]
    rw [if_neg fun sign => (noSign sign.1).1 sign.2, if_neg fun sign => (noSign sign.1).2 sign.2,
      releases]
    exact inFront _ _
  | opening role => simp [role]
  | closing role isOpening noneInside split =>
    obtain ⟨taken, dropped⟩ := splits_iff.mpr ⟨isOpening, noneInside, split⟩
    simp only [role]
    rw [dropped, taken]
    exact inFront _ _

/-- Postfix order goes token by token. -/
theorem arrange_cons_iff : arrange previous stack (token :: rest) = .ok output ↔
    ∃ added waiting later, Shunts previous stack token added waiting ∧
      arrange (some token.role) waiting rest = .ok later ∧ output = added ++ later := by
  constructor
  · intro arranged
    unfold arrange at arranged
    split at arranged
    case h_1 role | h_2 role =>
      obtain ⟨later, laterArranged, equal⟩ := Result.bind_eq_ok_iff.mp arranged
      cases equal
      exact ⟨_, _, later, .operand (by simp [role]), laterArranged, rfl⟩
    case h_3 role =>
      split at arranged
      · next sign => exact ⟨_, _, output, .plus role sign.1 sign.2, arranged, rfl⟩
      · next noPlus =>
        split at arranged
        · next sign => exact ⟨_, _, output, .minus role sign.1 sign.2, arranged, rfl⟩
        · next noMinus =>
          obtain ⟨split, releases, arranged⟩ := Result.bind_eq_ok_iff.mp arranged
          obtain ⟨later, laterArranged, equal⟩ := Result.bind_eq_ok_iff.mp arranged
          cases equal
          have noSign (expected : expectsOperand previous = true) :
              token.literal ≠ "+" ∧ token.literal ≠ "-" :=
            ⟨fun sign => noPlus ⟨expected, sign⟩, fun sign => noMinus ⟨expected, sign⟩⟩
          exact ⟨_, _, later, .binary role noSign releases, laterArranged, rfl⟩
    case h_4 role => exact ⟨_, _, output, .opening role, arranged, rfl⟩
    case h_5 role =>
      split at arranged
      · cases arranged
      · next opening below dropped =>
        obtain ⟨later, laterArranged, equal⟩ := Result.bind_eq_ok_iff.mp arranged
        cases equal
        obtain ⟨isOpening, noneInside, split⟩ := splits_iff.mp ⟨rfl, dropped⟩
        exact ⟨_, _, later, .closing role isOpening noneInside split, laterArranged, rfl⟩
    all_goals cases arranged
  · rintro ⟨added, waiting, later, shunts, arranged, rfl⟩
    rw [arrange_of_shunts shunts, arranged]
    rfl

theorem Shunts.role_ne_arrow {added waiting : List AnnotatedToken}
    (shunts : Shunts previous stack token added waiting) : token.role ≠ .arrow := by
  cases shunts with
  | operand role => rcases role with role | role <;> simp [role]
  | plus role | minus role | binary role | opening role | closing role => simp [role]

end Shunting

/-! ## Expressions without operands -/

/-- A token that postfix order drops wherever it can stand: a parenthesis or a positive sign. -/
def IsSilent (token : AnnotatedToken) : Prop :=
  token.role = .leftParen ∨ token.role = .rightParen ∨
    (token.role = .operator ∧ token.literal = "+")

/-- If nothing is left in postfix order, no operand and no operation was there. -/
theorem silent_of_arrange {previous : Option Role} {stack tokens : List AnnotatedToken}
    (arranged : arrange previous stack tokens = .ok []) :
    (∀ waiting ∈ stack, waiting.role = .leftParen) ∧ ∀ token ∈ tokens, IsSilent token := by
  induction tokens generalizing previous stack with
  | nil =>
    obtain ⟨rfl, -⟩ := unwind_eq_ok_iff.mp arranged
    simp
  | cons token rest inductionHypothesis =>
    obtain ⟨added, waiting, later, shunts, laterArranged, empty⟩ := arrange_cons_iff.mp arranged
    obtain ⟨rfl, rfl⟩ := List.append_eq_nil_iff.mp empty.symm
    obtain ⟨parentheses, silent⟩ := inductionHypothesis laterArranged
    rw [List.forall_mem_cons]
    cases shunts with
    | plus role expected sign => exact ⟨parentheses, .inr (.inr ⟨role, sign⟩), silent⟩
    | opening role => exact ⟨(List.forall_mem_cons.mp parentheses).2, .inl role, silent⟩
    | closing role isOpening noneInside split =>
      rw [split]
      exact ⟨List.forall_mem_cons.mpr ⟨isOpening, parentheses⟩, .inr (.inl role), silent⟩
    | minus => cases (List.forall_mem_cons.mp parentheses).1
    | binary role =>
      have isOpening := (List.forall_mem_cons.mp parentheses).1
      rw [role] at isOpening
      cases isOpening

end ParaLang.Expression
