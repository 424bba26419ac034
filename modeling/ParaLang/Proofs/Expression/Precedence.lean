import ParaLang.Proofs.Expression.Ordering

/-! # Precedence

Tokens in order are operands, with signs in front of them, and binary operators in between.  Binding
strength groups them: powers first, then products, then sums.  So they are an infix expression.  Its
operands are always apart. -/

namespace ParaLang.Expression

open ParaLang.Annotations (isOperand juxtaposed)

/-! ## Flat runs -/

/-- A run of units of a level and binary operators in between, with any signs. -/
inductive Flat : List AnnotatedToken → Prop where
  | unit {tree : Tree} {items : List AnnotatedToken} : Infix .atom tree items → Flat items
  | sign {token : AnnotatedToken} {items : List AnnotatedToken} :
      token.role = .operator → token.literal = "+" ∨ token.literal = "-" → Flat items →
      Flat (token :: items)
  | binary {tree : Tree} {items rest : List AnnotatedToken} {operator : AnnotatedToken} :
      Infix .atom tree items → operator.role = .operator →
      (BinaryOperator.ofSymbol? operator.literal).isSome = true → Flat rest →
      Flat (items ++ operator :: rest)

/-- The end of an expression, or the parenthesis that closes it with what follows. -/
def Ends (depth : Nat) (rest : List AnnotatedToken) : Prop :=
  (depth = 0 ∧ rest = []) ∨ ∃ closing later outer, depth = outer + 1 ∧ rest = closing :: later ∧
    closing.role = .rightParen ∧ Ordered false outer later

/-- A flat run stands in front, and the expression ends behind it. -/
def StartsFlat (depth : Nat) (tokens : List AnnotatedToken) : Prop :=
  ∃ items rest, tokens = items ++ rest ∧ Flat items ∧ Ends depth rest

theorem startsFlat_behind {depth : Nat} {tree : Tree} {unit tokens : List AnnotatedToken}
    (atom : Infix .atom tree unit) (ordered : Ordered false depth tokens)
    (recursive : ∀ more, more.length < tokens.length → Ordered true depth more →
      StartsFlat depth more) : StartsFlat depth (unit ++ tokens) := by
  cases ordered with
  | done => exact ⟨unit, [], rfl, .unit atom, .inl ⟨rfl, rfl⟩⟩
  | @binary _ operator more isOperator known later =>
    obtain ⟨items, rest, rfl, flat, ends⟩ := recursive more (by simp) later
    exact ⟨unit ++ operator :: items, rest, by simp, .binary atom isOperator known flat, ends⟩
  | @closing outer closing later isRight behind =>
    exact ⟨unit, closing :: later, rfl, .unit atom, .inr ⟨_, _, _, rfl, rfl, isRight, behind⟩⟩

/-! ## Units of a level -/

/-- Units of a level, each behind one of some operators. -/
inductive Tail (symbols : List String) (level : Level) : List AnnotatedToken → Prop where
  | nil : Tail symbols level []
  | cons {tree : Tree} {unit rest : List AnnotatedToken} {operator : AnnotatedToken} :
      operator.role = .operator → operator.literal ∈ symbols → Infix level tree unit →
      Tail symbols level rest → Tail symbols level (operator :: (unit ++ rest))

theorem signed_of_atom {tree : Tree} {items : List AnnotatedToken} (atom : Infix .atom tree items) :
    Infix .signed tree items :=
  @Infix.loosen .signed _ _ (@Infix.loosen .power _ _ atom)

/-- A flat run is a signed operand with others behind operators that bind less tightly. -/
theorem Flat.signed {items : List AnnotatedToken} (flat : Flat items) :
    ∃ tree head tail, items = head ++ tail ∧ Infix .signed tree head ∧
      Tail (Level.sum.symbols ++ Level.product.symbols) .signed tail := by
  induction flat with
  | @unit tree items atom => exact ⟨tree, items, [], by simp, signed_of_atom atom, .nil⟩
  | @sign token items isOperator isSign _ inductionHypothesis =>
    obtain ⟨tree, head, tail, rfl, grammar, others⟩ := inductionHypothesis
    rcases isSign with plus | minus
    · exact ⟨_, token :: head, tail, rfl, .identity isOperator plus grammar, others⟩
    · exact ⟨_, token :: head, tail, rfl, .negation isOperator minus grammar, others⟩
  | @binary tree items rest operator atom isOperator known _ inductionHypothesis =>
    obtain ⟨right, head, tail, rfl, grammar, others⟩ := inductionHypothesis
    by_cases isPower : operator.literal = "^"
    · have power := Infix.power atom isOperator isPower grammar
      exact ⟨_, items ++ operator :: head, tail, by simp, @Infix.loosen .signed _ _ power, others⟩
    · refine ⟨tree, items, operator :: (head ++ tail), by simp, signed_of_atom atom,
        .cons isOperator ?_ grammar others⟩
      revert known
      unfold BinaryOperator.ofSymbol?
      split <;> simp_all [Level.symbols]

/-- The products of a run are gathered. -/
theorem Tail.products {tail : List AnnotatedToken}
    (others : Tail (Level.sum.symbols ++ Level.product.symbols) .signed tail) {tree : Tree}
    {head : List AnnotatedToken} (product : Infix .product tree head) :
    ∃ whole more rest, tail = more ++ rest ∧ Infix .product whole (head ++ more) ∧
      Tail Level.sum.symbols .product rest := by
  induction others generalizing tree head with
  | nil => exact ⟨tree, [], [], rfl, by simpa using product, .nil⟩
  | @cons factor unit tail operator isOperator symbol grammar _ inductionHypothesis =>
    rcases List.mem_append.mp symbol with ofSum | ofProduct
    · obtain ⟨whole, more, rest, rfl, grown, sums⟩ :=
        inductionHypothesis (@Infix.loosen .product _ _ grammar)
      exact ⟨tree, [], _, by simp, by simpa using product, .cons isOperator ofSum grown sums⟩
    · obtain ⟨whole, more, rest, rfl, grown, sums⟩ :=
        inductionHypothesis (.binary product isOperator ofProduct grammar)
      exact ⟨whole, operator :: (unit ++ more), rest, by simp, by simpa using grown, sums⟩

theorem Tail.sum {tail : List AnnotatedToken} (others : Tail Level.sum.symbols .product tail)
    {tree : Tree} {head : List AnnotatedToken} (sum : Infix .sum tree head) :
    ∃ whole, Infix .sum whole (head ++ tail) := by
  induction others generalizing tree head with
  | nil => exact ⟨tree, by simpa using sum⟩
  | cons isOperator symbol grammar _ inductionHypothesis =>
    simpa using inductionHypothesis (.binary sum isOperator symbol grammar)

theorem exists_tree_of_flat {items : List AnnotatedToken} (flat : Flat items) :
    ∃ tree, Infix .sum tree items := by
  obtain ⟨tree, head, tail, rfl, grammar, others⟩ := flat.signed
  obtain ⟨product, more, rest, rfl, gathered, sums⟩ :=
    others.products (@Infix.loosen .product _ _ grammar)
  simpa using sums.sum (@Infix.loosen .sum _ _ gathered)

/-! ## Ordered tokens -/

theorem startsFlat_of_ordered : ∀ {tokens : List AnnotatedToken} {depth : Nat},
    Ordered true depth tokens → StartsFlat depth tokens
  | token :: rest, depth, .operand operand valued later => by
    have atom : ∃ tree, Infix .atom tree [token] := by
      rcases isOperand_iff.mp operand with isValue | isLookup
      · obtain ⟨value, present⟩ := Option.isSome_iff_exists.mp (valued isValue)
        exact ⟨_, .literal isValue present⟩
      · exact ⟨_, .name isLookup⟩
    obtain ⟨tree, atom⟩ := atom
    exact startsFlat_behind atom later fun more shorter ordered =>
      have := shorter
      startsFlat_of_ordered ordered
  | token :: rest, depth, .sign isOperator isSign later => by
    obtain ⟨items, behind, rfl, flat, ends⟩ := startsFlat_of_ordered later
    exact ⟨token :: items, behind, rfl, .sign isOperator isSign flat, ends⟩
  | token :: rest, depth, .opening isLeft later => by
    obtain ⟨items, behind, split, flat, ⟨absurd, -⟩ |
      ⟨closing, more, outer, same, rfl, isRight, ordered⟩⟩ := startsFlat_of_ordered later
    · cases absurd
    obtain rfl := Nat.succ.inj same
    obtain ⟨tree, grammar⟩ := exists_tree_of_flat flat
    have whole : token :: rest = (token :: items ++ [closing]) ++ more := by simp [split]
    have shorter : more.length < rest.length := by
      rw [split]
      simp
      omega
    rw [whole]
    exact startsFlat_behind (.parentheses isLeft grammar isRight) ordered
      fun others evenShorter ordered =>
        have := evenShorter
        startsFlat_of_ordered ordered
termination_by tokens => tokens.length

/-- Tokens in order are an infix expression. -/
theorem infix_of_ordered {tokens : List AnnotatedToken} (ordered : Ordered true 0 tokens) :
    ∃ tree, Infix .sum tree tokens := by
  obtain ⟨items, rest, rfl, flat, ⟨-, rfl⟩ | ⟨_, _, _, absurd, -⟩⟩ := startsFlat_of_ordered ordered
  · simpa using exists_tree_of_flat flat
  · cases absurd

/-! ## Operands side by side -/

/-- No two operands of a run are neighbours. -/
def Apart (run : List AnnotatedToken) : Prop :=
  run.IsChain fun left right => (isOperand left.role && isOperand right.role) = false

theorem apart_around {before after : List AnnotatedToken} {token : AnnotatedToken}
    (apartBefore : Apart before) (apartAfter : Apart after) (between : isOperand token.role = false) :
    Apart (before ++ token :: after) := by
  have behind : Apart (token :: after) :=
    List.isChain_cons.mpr ⟨fun _ _ => by rw [between, Bool.false_and], apartAfter⟩
  refine apartBefore.append behind fun last _ first isFirst => ?_
  obtain rfl : token = first := Option.some.inj isFirst
  rw [between, Bool.and_false]

theorem apart_of_infix {level : Level} {tree : Tree} {items : List AnnotatedToken}
    (grammar : Infix level tree items) : Apart items := by
  have nothing : Apart [] := List.IsChain.nil
  have noOperand {token : AnnotatedToken} {role : Role} (isRole : token.role = role)
      (other : isOperand role = false) : isOperand token.role = false := by
    rw [isRole, other]
  induction grammar with
  | loosen _ inner => exact inner
  | binary _ isOperator _ _ left right => exact apart_around left right (noOperand isOperator rfl)
  | negation isOperator _ _ operand => exact apart_around nothing operand (noOperand isOperator rfl)
  | identity isOperator _ _ operand => exact apart_around nothing operand (noOperand isOperator rfl)
  | power _ isOperator _ _ base exponent =>
    exact apart_around base exponent (noOperand isOperator rfl)
  | literal | name => exact List.IsChain.singleton _
  | parentheses opens _ closes inner =>
    exact apart_around (apart_around nothing inner (noOperand opens rfl)) nothing
      (noOperand closes rfl)

/-- No two neighbours of a run need a multiplication in between. -/
def Complete (run : List AnnotatedToken) : Prop :=
  run.IsChain fun left right => juxtaposed left.role right.role = false

/-- Neighbours that touch are both operands or need a multiplication. -/
theorem separate_of_apart {run : List AnnotatedToken} (complete : Complete run)
    (apart : Apart run) : run.IsChain Separate := by
  have separate (left right : Role) (untouched : juxtaposed left right = false)
      (others : (isOperand left && isOperand right) = false) :
      (endsOperand left && startsOperand right) = false := by
    unfold endsOperand startsOperand
    unfold juxtaposed at untouched
    cases left <;> cases right <;> simp_all [isOperand]
  induction run with
  | nil => exact List.IsChain.nil
  | cons token rest inductionHypothesis =>
    obtain ⟨untouched, completeRest⟩ := List.isChain_cons.mp complete
    obtain ⟨others, apartRest⟩ := List.isChain_cons.mp apart
    refine List.isChain_cons.mpr ⟨fun next isNext => ?_, inductionHypothesis completeRest apartRest⟩
    exact separate _ _ (untouched next isNext) (others next isNext)

/-- A complete run with a value is an infix expression if and only if its operands are apart. -/
theorem infix_iff_apart {verbosity : Nat} {root : Scope} {run : List AnnotatedToken}
    {value : Option Value} (complete : Complete run) (ordinary : ∀ token ∈ run, Ordinary token)
    (succeeds : (evaluate verbosity root run).outcome = .ok value) :
    (∃ tree, Infix .sum tree run) ↔ Apart run :=
  ⟨fun ⟨_, grammar⟩ => apart_of_infix grammar, fun apart =>
    infix_of_ordered (ordered_of_evaluate (separate_of_apart complete apart) ordinary succeeds)⟩

end ParaLang.Expression
