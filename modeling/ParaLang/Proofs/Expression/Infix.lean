import ParaLang.Proofs.Expression.Evaluation

/-! # Infix expressions

The grammar of infix expressions by binding strength, the tree that a run of expression tokens
stands for, and the value of that tree.  `evaluate_infix` says that rearranging a run into postfix
order and evaluating it on a stack gives the value of its tree, or the failure that the tree meets
first from left to right. -/

namespace ParaLang.Expression

/-! ## Trees -/

/-- An expression without its parentheses; each node that can fail knows where it is reported. -/
inductive Tree where
  | literal (value : Value)
  | name (text : String) (place : Place)
  | identity (operand : Tree)
  | negation (place : Place) (operand : Tree)
  | binary (symbol : String) (place : Place) (left right : Tree)

/-- The value of a tree: left operand, right operand, then the operator. -/
def Tree.evaluate (root : Scope) : Tree → Result Value
  | literal value => .ok value
  | name text place =>
    match Table.get? root.entries text with
    | some found => .ok found.value
    | none => fail (.rootVariableNotFound text) place.line place.number (some [text])
  | identity operand => operand.evaluate root
  | negation place operand => do Arithmetic.negate (← operand.evaluate root) place
  | binary symbol place left right => do
    let left ← left.evaluate root
    let right ← right.evaluate root
    Arithmetic.apply symbol left right place

/-! ## Grammar -/

/-- The levels of binding strength, loosest first. -/
inductive Level where
  | sum
  | product
  | signed
  | power
  | atom

namespace Level

/-- The next tighter level. -/
def tighter : Level → Level
  | sum => product
  | product => signed
  | signed => power
  | power | atom => atom

/-- The operators that group operands of a level to the left. -/
def symbols : Level → List String
  | sum => ["+", "-"]
  | product => ["*", "/", "%"]
  | _ => []

/-- The rank that the operators of an expression of this level have at least. -/
def leastRank : Level → Nat
  | sum => 1
  | product => 2
  | signed | power => 3
  | atom => 5

/-- Where an expression of this level may start, every operator that waits has a smaller rank. -/
def rankBound : Level → Nat
  | sum => 1
  | product => 2
  | _ => 5

end Level

/-- The runs of expression tokens that stand for a tree. -/
inductive Infix : Level → Tree → List AnnotatedToken → Prop where
  | loosen {level tree items} : Infix level.tighter tree items → Infix level tree items
  | binary {level left right leftItems rightItems} {operator : AnnotatedToken} :
      Infix level left leftItems → operator.role = .operator →
      operator.literal ∈ level.symbols → Infix level.tighter right rightItems →
      Infix level (.binary operator.literal operator.place left right)
        (leftItems ++ operator :: rightItems)
  | negation {operand items} {sign : AnnotatedToken} :
      sign.role = .operator → sign.literal = "-" → Infix .signed operand items →
      Infix .signed (.negation sign.place operand) (sign :: items)
  | identity {operand items} {sign : AnnotatedToken} :
      sign.role = .operator → sign.literal = "+" → Infix .signed operand items →
      Infix .signed (.identity operand) (sign :: items)
  | power {base exponent baseItems exponentItems} {operator : AnnotatedToken} :
      Infix .atom base baseItems → operator.role = .operator → operator.literal = "^" →
      Infix .signed exponent exponentItems →
      Infix .power (.binary operator.literal operator.place base exponent)
        (baseItems ++ operator :: exponentItems)
  | literal {value} {item : AnnotatedToken} :
      item.role = .value → item.value = some value → Infix .atom (.literal value) [item]
  | name {item : AnnotatedToken} :
      item.role = .lookup → Infix .atom (.name item.literal item.place) [item]
  | parentheses {tree items} {opening closing : AnnotatedToken} :
      opening.role = .leftParen → Infix .sum tree items → closing.role = .rightParen →
      Infix .atom tree (opening :: items ++ [closing])

/-! ## Postfix runs -/

/-- A postfix run pushes the value of a tree, whatever the stack holds and whatever follows. -/
def Computes (tree : Tree) (postfixed : List AnnotatedToken) : Prop :=
  ∀ root stack rest, pushAll root stack (postfixed ++ rest) =
    tree.evaluate root >>= fun value => pushAll root (some value :: stack) rest

theorem computes_literal {item : AnnotatedToken} {value : Value} (role : item.role = .value)
    (present : item.value = some value) : Computes (.literal value) [item] := by
  intro root stack rest
  simp [pushAll, push, role, present, Tree.evaluate]

theorem computes_name {item : AnnotatedToken} (role : item.role = .lookup) :
    Computes (.name item.literal item.place) [item] := by
  intro root stack rest
  simp only [List.cons_append, List.nil_append, pushAll, push, role, Tree.evaluate]
  cases Table.get? root.entries item.literal <;> rfl

theorem computes_identity {operand : Tree} {postfixed : List AnnotatedToken}
    (computes : Computes operand postfixed) : Computes (.identity operand) postfixed :=
  computes

theorem computes_negation {sign : AnnotatedToken} {operand : Tree}
    {postfixed : List AnnotatedToken} (computes : Computes operand postfixed) :
    Computes (.negation sign.place operand) (postfixed ++ [negation sign]) := by
  intro root stack rest
  rw [List.append_assoc, computes, Tree.evaluate, bind_assoc]
  congr 1
  funext value
  simp [pushAll, push, negation, Value.require, AnnotatedToken.place]

theorem computes_binary {operator : AnnotatedToken} {left right : Tree}
    {leftPostfix rightPostfix : List AnnotatedToken} (role : operator.role = .operator)
    (binary : operator.literal ≠ negationSymbol) (leftComputes : Computes left leftPostfix)
    (rightComputes : Computes right rightPostfix) :
    Computes (.binary operator.literal operator.place left right)
      (leftPostfix ++ rightPostfix ++ [operator]) := by
  intro root stack rest
  rw [List.append_assoc, List.append_assoc, leftComputes, Tree.evaluate, bind_assoc]
  congr 1
  funext leftValue
  rw [rightComputes, bind_assoc]
  congr 1
  funext rightValue
  simp [pushAll, push, role, binary, Value.require]

/-! ## The stack of waiting operators -/

/-- An operator of at least the given rank. -/
def Waiting (least : Nat) (token : AnnotatedToken) : Prop :=
  token.role = .operator ∧ ∃ rank, rank? token.literal = some rank ∧ least ≤ rank

/-- Nothing on top of the stack is released by an operator of the given rank. -/
def Barrier (bound : Nat) (stack : List AnnotatedToken) : Prop :=
  ∀ top ∈ stack.head?, top.role = .operator →
    ∃ rank, rank? top.literal = some rank ∧ rank < bound

theorem Waiting.mono {smaller larger : Nat} {token : AnnotatedToken}
    (waiting : Waiting larger token) (bound : smaller ≤ larger) : Waiting smaller token := by
  obtain ⟨role, rank, ranked, least⟩ := waiting
  exact ⟨role, rank, ranked, Nat.le_trans bound least⟩

theorem Barrier.mono {smaller larger : Nat} {stack : List AnnotatedToken}
    (barrier : Barrier smaller stack) (bound : smaller ≤ larger) : Barrier larger stack := by
  intro top member role
  obtain ⟨rank, ranked, small⟩ := barrier top member role
  exact ⟨rank, ranked, Nat.lt_of_lt_of_le small bound⟩

theorem barrier_of_rank {bound rank : Nat} {token : AnnotatedToken} {stack : List AnnotatedToken}
    (ranked : rank? token.literal = some rank) (small : rank < bound) :
    Barrier bound (token :: stack) := by
  intro top member _
  simp only [List.head?_cons, Option.mem_def, Option.some.injEq] at member
  subst member
  exact ⟨rank, ranked, small⟩

theorem rank?_le {symbol : String} {rank : Nat} (ranked : rank? symbol = some rank) : rank ≤ 4 := by
  unfold rank? at ranked
  split at ranked <;> simp_all <;> omega

theorem rank_eq_ok {symbol : String} {own : Nat} (ranked : rank? symbol = some own) :
    rank symbol = .ok own := by
  simp [rank, ranked]

/-- A left-associative operator releases everything down to the barrier. -/
theorem release_waiting {symbol : String} {own : Nat} (ranked : rank? symbol = some own)
    (leftward : groupsRight symbol = false) {pending stack : List AnnotatedToken}
    (waiting : ∀ token ∈ pending, Waiting own token) (barrier : Barrier own stack) :
    release symbol (pending ++ stack) = .ok (pending, stack) := by
  induction pending with
  | nil =>
    cases stack with
    | nil => rfl
    | cons top below =>
      simp only [List.nil_append, release]
      split
      · rename_i role
        obtain ⟨rank, topRanked, small⟩ := barrier top (by simp) role
        have keeps : ¬ (own < rank ∨ (rank = own ∧ !groupsRight symbol)) := by omega
        simp only [rank_eq_ok topRanked, rank_eq_ok ranked, Result.ok_bind, if_neg keeps,
          Result.pure_eq_ok]
      · rfl
  | cons token pending inductionHypothesis =>
    obtain ⟨role, rank, tokenRanked, least⟩ := waiting token (by simp)
    have later := inductionHypothesis fun token member => waiting token (by simp [member])
    have releases : own < rank ∨ (rank = own ∧ !groupsRight symbol) := by
      simp only [leftward, Bool.not_false, and_true]
      omega
    simp only [List.cons_append, release, if_pos role, rank_eq_ok tokenRanked, rank_eq_ok ranked,
      Result.ok_bind, if_pos releases, later, Result.pure_eq_ok]

/-- The power operator groups to the right and releases nothing. -/
theorem release_power {stack : List AnnotatedToken} (barrier : Barrier 5 stack) :
    release "^" stack = .ok ([], stack) := by
  cases stack with
  | nil => rfl
  | cons top below =>
    simp only [release]
    split
    · rename_i role
      obtain ⟨rank, topRanked, small⟩ := barrier top (by simp) role
      have own : rank? "^" = some 4 := rfl
      have keeps : ¬ (4 < rank ∨ (rank = 4 ∧ !groupsRight "^")) := by
        have rightward : groupsRight "^" = true := rfl
        simp only [rightward, Bool.not_true, Bool.false_eq_true, and_false, or_false]
        omega
      simp only [rank_eq_ok topRanked, rank_eq_ok own, Result.ok_bind, if_neg keeps,
        Result.pure_eq_ok]
    · rfl

theorem unwind_waiting {pending : List AnnotatedToken} {least : Nat}
    (waiting : ∀ token ∈ pending, Waiting least token) : unwind pending = .ok pending := by
  induction pending with
  | nil => rfl
  | cons token pending inductionHypothesis =>
    have role : token.role ≠ .leftParen := by simp [(waiting token (by simp)).1]
    have later := inductionHypothesis fun token member => waiting token (by simp [member])
    simp [unwind, role, later]

theorem takeWhile_waiting {pending : List AnnotatedToken} {least : Nat}
    (waiting : ∀ token ∈ pending, Waiting least token) {opening : AnnotatedToken}
    (role : opening.role = .leftParen) (stack : List AnnotatedToken) :
    (pending ++ opening :: stack).takeWhile (·.role != .leftParen) = pending := by
  have inside : ∀ token ∈ pending, (token.role != .leftParen) = true := fun token member => by
    simp [(waiting token member).1]
  rw [List.takeWhile_append_of_pos inside]
  simp [role]

theorem dropWhile_waiting {pending : List AnnotatedToken} {least : Nat}
    (waiting : ∀ token ∈ pending, Waiting least token) {opening : AnnotatedToken}
    (role : opening.role = .leftParen) (stack : List AnnotatedToken) :
    (pending ++ opening :: stack).dropWhile (·.role != .leftParen) = opening :: stack := by
  have inside : ∀ token ∈ pending, (token.role != .leftParen) = true := fun token member => by
    simp [(waiting token member).1]
  rw [List.dropWhile_append_of_pos inside]
  simp [role]

/-! ## Rearranging a run -/

/-- Reading a run for a tree writes some of its postfix form and leaves the rest, operators of the
level or tighter ones, on the stack; what follows then finds a complete operand before it. -/
def Arranges (level : Level) (tree : Tree) (items : List AnnotatedToken) : Prop :=
  ∀ previous stack, expectsOperand previous = true → Barrier level.rankBound stack →
    ∃ output pending last, Computes tree (output ++ pending) ∧
      (∀ token ∈ pending, Waiting level.leastRank token) ∧ expectsOperand (some last) = false ∧
      ∀ rest, arrange previous stack (items ++ rest) =
        (output ++ ·) <$> arrange (some last) (pending ++ stack) rest

theorem arranges_loosen {level : Level} {tree : Tree} {items : List AnnotatedToken}
    (arranges : Arranges level.tighter tree items) : Arranges level tree items := by
  intro previous stack start barrier
  have bound : level.rankBound ≤ level.tighter.rankBound := by cases level <;> decide
  have least : level.leastRank ≤ level.tighter.leastRank := by cases level <;> decide
  obtain ⟨output, pending, last, computes, waiting, complete, equation⟩ :=
    arranges previous stack start (barrier.mono bound)
  exact ⟨output, pending, last, computes, fun token member => (waiting token member).mono least,
    complete, equation⟩

/-- The symbols of a level have its rank, group to the left and differ from the sign. -/
theorem ranked_of_mem_symbols {level : Level} {symbol : String} (member : symbol ∈ level.symbols) :
    rank? symbol = some level.leastRank ∧ level.rankBound = level.leastRank ∧
      level.leastRank < level.tighter.rankBound ∧ groupsRight symbol = false ∧
      symbol ≠ negationSymbol := by
  cases level <;> simp only [Level.symbols, List.mem_cons, List.not_mem_nil, or_false] at member
  case sum => rcases member with rfl | rfl <;> decide
  case product => rcases member with rfl | rfl | rfl <;> decide

theorem arrange_binary {operator : AnnotatedToken} {last : Role} {rest : List AnnotatedToken}
    {stack released below : List AnnotatedToken} (role : operator.role = .operator)
    (complete : expectsOperand (some last) = false)
    (releases : release operator.literal stack = .ok (released, below)) :
    arrange (some last) stack (operator :: rest) =
      (released ++ ·) <$> arrange (some .operator) (operator :: below) rest := by
  rw [arrange]
  simp only [role, complete, Bool.false_eq_true, false_and, if_false, releases, Result.ok_bind]
  rfl

theorem arranges_binary {level : Level} {left right : Tree} {operator : AnnotatedToken}
    {leftItems rightItems : List AnnotatedToken} (leftArranges : Arranges level left leftItems)
    (role : operator.role = .operator) (member : operator.literal ∈ level.symbols)
    (rightArranges : Arranges level.tighter right rightItems) :
    Arranges level (.binary operator.literal operator.place left right)
      (leftItems ++ operator :: rightItems) := by
  intro previous stack start barrier
  obtain ⟨ranked, bound, tighter, leftward, binary⟩ := ranked_of_mem_symbols member
  obtain ⟨leftOutput, leftPending, leftLast, leftComputes, leftWaiting, leftComplete,
    leftEquation⟩ := leftArranges previous stack start barrier
  obtain ⟨rightOutput, rightPending, rightLast, rightComputes, rightWaiting, rightComplete,
    rightEquation⟩ := rightArranges (some .operator) (operator :: stack) rfl
      (barrier_of_rank ranked tighter)
  -- the operator releases what waits from the left, and nothing below
  have releases := release_waiting ranked leftward leftWaiting (bound ▸ barrier)
  have least : level.leastRank ≤ level.tighter.leastRank := by cases level <;> decide
  refine ⟨leftOutput ++ leftPending ++ rightOutput, rightPending ++ [operator], rightLast, ?_, ?_,
    rightComplete, ?_⟩
  · simpa only [List.append_assoc] using computes_binary role binary leftComputes rightComputes
  · intro token memberOrLast
    rcases List.mem_append.mp memberOrLast with waits | isOperator
    · exact (rightWaiting token waits).mono least
    · rw [List.mem_singleton.mp isOperator]
      exact ⟨role, _, ranked, Nat.le_refl _⟩
  · intro rest
    rw [List.append_assoc, leftEquation, List.cons_append,
      arrange_binary role leftComplete releases, rightEquation]
    simp only [Functor.map_map, List.append_assoc, List.cons_append, List.nil_append]

theorem arranges_power {base exponent : Tree} {operator : AnnotatedToken}
    {baseItems exponentItems : List AnnotatedToken} (baseArranges : Arranges .atom base baseItems)
    (role : operator.role = .operator) (symbol : operator.literal = "^")
    (exponentArranges : Arranges .signed exponent exponentItems) :
    Arranges .power (.binary operator.literal operator.place base exponent)
      (baseItems ++ operator :: exponentItems) := by
  intro previous stack start barrier
  have ranked : rank? operator.literal = some 4 := by rw [symbol]; rfl
  have binary : operator.literal ≠ negationSymbol := by rw [symbol]; decide
  obtain ⟨baseOutput, basePending, baseLast, baseComputes, baseWaiting, baseComplete,
    baseEquation⟩ := baseArranges previous stack start barrier
  obtain ⟨output, pending, last, computes, waiting, complete, equation⟩ :=
    exponentArranges (some .operator) (operator :: stack) rfl (barrier_of_rank ranked (by decide))
  have nothing : basePending = [] := by
    cases basePending with
    | nil => rfl
    | cons token _ =>
      obtain ⟨_, rank, tokenRanked, least⟩ := baseWaiting token (by simp)
      have most := rank?_le tokenRanked
      simp only [Level.leastRank] at least
      omega
  subst nothing
  have releases : release operator.literal stack = .ok ([], stack) :=
    symbol ▸ release_power barrier
  refine ⟨baseOutput ++ output, pending ++ [operator], last, ?_, ?_, complete, ?_⟩
  · simpa only [List.append_assoc, List.append_nil] using
      computes_binary role binary baseComputes computes
  · intro token memberOrLast
    rcases List.mem_append.mp memberOrLast with waits | isOperator
    · exact waiting token waits
    · rw [List.mem_singleton.mp isOperator]
      exact ⟨role, _, ranked, by decide⟩
  · intro rest
    rw [List.append_assoc, baseEquation, List.cons_append, List.nil_append,
      arrange_binary role baseComplete releases, equation]
    simp only [Functor.map_map, List.append_assoc, List.cons_append, List.nil_append]

theorem arranges_negation {operand : Tree} {sign : AnnotatedToken} {items : List AnnotatedToken}
    (role : sign.role = .operator) (symbol : sign.literal = "-")
    (arranges : Arranges .signed operand items) :
    Arranges .signed (.negation sign.place operand) (sign :: items) := by
  intro previous stack start barrier
  have ranked : rank? (negation sign).literal = some 3 := rfl
  obtain ⟨output, pending, last, computes, waiting, complete, equation⟩ :=
    arranges (some .operator) (negation sign :: stack) rfl (barrier_of_rank ranked (by decide))
  refine ⟨output, pending ++ [negation sign], last, ?_, ?_, complete, ?_⟩
  · simpa only [List.append_assoc] using computes_negation computes
  · intro token memberOrLast
    rcases List.mem_append.mp memberOrLast with waits | isSign
    · exact waiting token waits
    · rw [List.mem_singleton.mp isSign]
      exact ⟨rfl, _, ranked, by decide⟩
  · intro rest
    have notPlus : ("-" : String) ≠ "+" := by decide
    rw [List.cons_append, arrange]
    simp only [role, start, symbol, notPlus, and_false, if_false, true_and, if_true]
    rw [equation]
    simp only [List.append_assoc, List.cons_append, List.nil_append]

theorem arranges_identity {operand : Tree} {sign : AnnotatedToken} {items : List AnnotatedToken}
    (role : sign.role = .operator) (symbol : sign.literal = "+")
    (arranges : Arranges .signed operand items) :
    Arranges .signed (.identity operand) (sign :: items) := by
  intro previous stack start barrier
  obtain ⟨output, pending, last, computes, waiting, complete, equation⟩ :=
    arranges (some .operator) stack rfl barrier
  refine ⟨output, pending, last, computes_identity computes, waiting, complete, fun rest => ?_⟩
  rw [List.cons_append, arrange]
  simp only [role, start, symbol, and_self, if_true]
  exact equation rest

theorem arranges_operand {tree : Tree} {item : AnnotatedToken}
    (role : item.role = .value ∨ item.role = .lookup) (computes : Computes tree [item]) :
    Arranges .atom tree [item] := by
  intro previous stack _ _
  refine ⟨[item], [], item.role, computes, by simp, ?_, fun rest => ?_⟩
  · rcases role with role | role <;> rw [role] <;> rfl
  · rw [List.cons_append, arrange]
    rcases role with role | role <;> simp only [role] <;> rfl

theorem arranges_parentheses {tree : Tree} {opening closing : AnnotatedToken}
    {items : List AnnotatedToken} (opens : opening.role = .leftParen)
    (arranges : Arranges .sum tree items) (closes : closing.role = .rightParen) :
    Arranges .atom tree (opening :: items ++ [closing]) := by
  intro previous stack _ _
  have barrier : Barrier Level.sum.rankBound (opening :: stack) := by
    intro top member role
    simp only [List.head?_cons, Option.mem_def, Option.some.injEq] at member
    rw [← member, opens] at role
    cases role
  obtain ⟨output, pending, last, computes, waiting, _, equation⟩ :=
    arranges (some .leftParen) (opening :: stack) rfl barrier
  refine ⟨output ++ pending, [], .rightParen, by simpa using computes, by simp, rfl, fun rest => ?_⟩
  rw [List.append_assoc, List.cons_append, arrange]
  simp only [opens]
  rw [equation, List.cons_append, arrange]
  simp only [closes, dropWhile_waiting waiting opens, takeWhile_waiting waiting opens,
    List.nil_append]
  cases arrange (some .rightParen) stack rest <;> simp

theorem arranges_infix {level : Level} {tree : Tree} {items : List AnnotatedToken}
    (grammar : Infix level tree items) : Arranges level tree items := by
  induction grammar with
  | loosen _ inner => exact arranges_loosen inner
  | binary _ role member _ left right => exact arranges_binary left role member right
  | negation role symbol _ operand => exact arranges_negation role symbol operand
  | identity role symbol _ operand => exact arranges_identity role symbol operand
  | power _ role symbol _ base exponent => exact arranges_power base role symbol exponent
  | literal role present => exact arranges_operand (.inl role) (computes_literal role present)
  | name role => exact arranges_operand (.inr role) (computes_name role)
  | parentheses opens _ closes inner => exact arranges_parentheses opens inner closes

/-- The postfix order of an infix run pushes the value of its tree. -/
theorem toPostfix_infix {tree : Tree} {items : List AnnotatedToken}
    (grammar : Infix .sum tree items) :
    ∃ postfixed, toPostfix items = .ok postfixed ∧ Computes tree postfixed := by
  obtain ⟨output, pending, last, computes, waiting, _, equation⟩ :=
    arranges_infix grammar none [] rfl (by intro top member; simp at member)
  refine ⟨output ++ pending, ?_, computes⟩
  have whole := equation []
  rw [List.append_nil, List.append_nil] at whole
  rw [toPostfix, whole, arrange, unwind_waiting waiting, Result.map_ok]

/-- The shunting of an infix run and its evaluation on a stack give what its tree gives: the same
value or the same failure at the same place. -/
theorem evaluate_infix {tree : Tree} {items : List AnnotatedToken}
    (grammar : Infix .sum tree items) (verbosity : Nat) (root : Scope) :
    (evaluate verbosity root items).outcome = some <$> tree.evaluate root := by
  obtain ⟨postfixed, arranged, computes⟩ := toPostfix_infix grammar
  have pushed := computes root [] []
  rw [List.append_nil] at pushed
  rw [outcome_evaluate, arranged, Result.ok_bind, evaluatePostfix, pushed]
  cases tree.evaluate root <;> rfl

end ParaLang.Expression
