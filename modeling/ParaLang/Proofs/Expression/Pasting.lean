import ParaLang.Proofs.Decimal.Negation
import ParaLang.Proofs.Expression.Infix
import ParaLang.Proofs.Expression.Names
import ParaLang.Proofs.Expression.Places
import ParaLang.Proofs.Value.Display

/-! # Values in place of names

An expression keeps its value when the values of its names are written in their place.  The value of
a negative number is written with a sign, which only binds as tightly as a name does in front of
operators that bind less tightly than a sign. -/

namespace ParaLang

namespace Value

/-! ## Values as items -/

/-- Whether the display of a number starts with a sign. -/
def isNegative : Value → Bool
  | .int value => value < 0
  | .float value =>
    match Binary64.ofFloat value with
    | .finite negative _ _ => negative
    | _ => false
  | _ => false

/-- The value of what is displayed behind the sign, or of all of it if there is none. -/
def magnitude : Value → Value
  | .int value => .int value.natAbs
  | .float value => .float (if (Value.float value).isNegative then -value else value)
  | value => value

/-- Whether a value is displayed by a literal, possibly behind a sign.  The least integer is the
negation of no literal. -/
def pastes : Value → Bool
  | .int value => -2147483647 ≤ value && value ≤ 2147483647
  | value => value.magnitude.showsLiteral

/-- A literal in an expression. -/
def literalItem (value : Value) : AnnotatedToken where
  role := .value
  literal := value.display
  kind := value.shownToken.kind
  line := 0
  number := 0
  value := some value

def signItem : AnnotatedToken where
  role := .operator
  literal := "-"
  kind := .minus
  line := 0
  number := 0

/-- The items that the display of a value is read as. -/
def items (value : Value) : List AnnotatedToken :=
  if value.isNegative then [signItem, value.magnitude.literalItem]
  else [value.magnitude.literalItem]

/-- The same items in postfix order. -/
def settledItems (value : Value) : List AnnotatedToken :=
  if value.isNegative then [value.magnitude.literalItem, Expression.negation signItem]
  else [value.magnitude.literalItem]

variable {value : Value}

theorem magnitude_of_nonnegative (nonnegative : value.isNegative = false) :
    value.magnitude = value := by
  cases value with
  | int value =>
    have bound : 0 ≤ value := by simpa [isNegative] using nonnegative
    simp only [magnitude, Int.natAbs_of_nonneg bound]
  | float value => simp only [magnitude, nonnegative, Bool.false_eq_true, if_false]
  | _ => rfl

/-- A float with a sign is finite. -/
theorem exists_contents {number : Float} (negative : (Value.float number).isNegative = true) :
    ∃ mantissa exponent, Binary64.ofFloat number = .finite true mantissa exponent := by
  unfold isNegative at negative
  cases contents : Binary64.ofFloat number with
  | finite sign mantissa exponent =>
    simp only [contents] at negative
    exact ⟨mantissa, exponent, by rw [negative]⟩
  | infinite sign | notANumber => simp [contents] at negative

/-- A negative value is the negation of its literal. -/
theorem negate_magnitude (pastes : value.pastes = true) (negative : value.isNegative = true)
    (place : Place) : Arithmetic.negate value.magnitude place = .ok value := by
  cases value with
  | int value =>
    simp only [Value.pastes, isNegative, Bool.and_eq_true, decide_eq_true_eq] at pastes negative
    have same : -(value.natAbs : Int) = value := by omega
    have fits : inRange value = true := by
      simp only [inRange, Bool.and_eq_true, decide_eq_true_eq]
      omega
    simp only [magnitude, Arithmetic.negate, Arithmetic.checked, same, fits, if_true]
  | float value =>
    obtain ⟨mantissa, exponent, contents⟩ := exists_contents negative
    simp only [magnitude, negative, if_true, Arithmetic.negate, Binary64.neg_neg_of_finite contents]
  | _ => cases negative

end Value

namespace Expression

open Value (signItem)

/-! ## Postfix order -/

theorem arrange_previous {previous other : Option Role}
    (same : expectsOperand previous = expectsOperand other) (stack tokens : List AnnotatedToken) :
    arrange previous stack tokens = arrange other stack tokens := by
  cases tokens with
  | nil => rfl
  | cons token rest => simp only [arrange, same]

/-- What follows an operand, if anything does, ends it or binds less tightly than a sign. -/
def looser (rest : List AnnotatedToken) : Bool :=
  rest.head?.all fun next => next.role == .rightParen ||
    (next.role == .operator && (rank? next.literal).any (· < 3))

/-- An operator that binds less tightly than a sign releases it. -/
theorem release_sign {symbol : String} {own : Nat} {stack released below : List AnnotatedToken}
    (known : rank? symbol = some own) (looselyBound : own < 3)
    (releases : release symbol stack = .ok (released, below)) :
    release symbol (negation signItem :: stack) = .ok (negation signItem :: released, below) := by
  have ownRank : rank symbol = .ok own := by rw [rank, known]
  have signRank : rank (negation signItem).literal = .ok 3 := rfl
  rw [release, if_pos (show (negation signItem).role = .operator from rfl)]
  simp only [signRank, ownRank, Result.ok_bind, looselyBound, true_or, if_true, releases]
  rfl

/-- A sign that waits in front of an operand is applied as soon as the operand is there. -/
theorem arrange_sign {stack rest output : List AnnotatedToken} (behind : looser rest = true)
    (arranged : arrange (some .value) stack rest = .ok output) :
    arrange (some .value) (negation signItem :: stack) rest =
      .ok (negation signItem :: output) := by
  cases rest with
  | nil =>
    rw [arrange] at arranged ⊢
    rw [unwind, if_neg (by rintro ⟨⟩), arranged]
    rfl
  | cons next rest =>
    simp only [looser, List.head?_cons, Option.all_some, Bool.or_eq_true, Bool.and_eq_true,
      beq_iff_eq] at behind
    obtain ⟨added, waiting, later, shunts, laterArranged, rfl⟩ := arrange_cons_iff.mp arranged
    refine arrange_cons_iff.mpr
      ⟨negation signItem :: added, waiting, later, ?_, laterArranged, rfl⟩
    -- behind an operand only a loose operator or a closing parenthesis can come
    cases shunts with
    | operand role => rcases role with role | role <;> simp [role] at behind
    | plus role expected | minus role expected => cases expected
    | opening role => simp [role] at behind
    | binary role noSign releases =>
      obtain ⟨own, known, looselyBound⟩ : ∃ own, rank? next.literal = some own ∧ own < 3 := by
        simpa [role, Option.any_eq_true] using behind
      exact .binary role noSign (release_sign known looselyBound releases)
    | closing role isOpening noneInside split =>
      have noParen : ∀ other ∈ negation signItem :: added, other.role ≠ .leftParen :=
        List.forall_mem_cons.mpr ⟨by rintro ⟨⟩, noneInside⟩
      exact .closing role isOpening noParen (by rw [split]; rfl)

/-! ## Values of a tree -/

section Tree

variable (tree : Scope)

/-- The value that a tree has for an item, if the item is a name of the root scope. -/
def known? (item : AnnotatedToken) : Option Value :=
  if item.role = .lookup then (Table.get? tree.entries item.literal).map Variable.value else none

/-- An item with the value of its name in place of it. -/
def pasteItem (item : AnnotatedToken) : List AnnotatedToken :=
  match known? tree item with
  | some value => value.items
  | none => [item]

/-- What becomes of the item in postfix order. -/
def settleItem (item : AnnotatedToken) : List AnnotatedToken :=
  match known? tree item with
  | some value => value.settledItems
  | none => [item]

/-- The values of names can be written in place of them.  A sign has to stand where one can, and
what follows its operand must not bind more tightly. -/
def Pastes (previous : Option Role) : List AnnotatedToken → Bool
  | [] => true
  | item :: rest =>
    ((known? tree item).all fun value =>
      value.pastes && (!value.isNegative || (expectsOperand previous && looser rest))) &&
      Pastes item.role rest

end Tree

variable {tree : Scope} {item : AnnotatedToken}

theorem known?_eq_none (noLookup : item.role ≠ .lookup) : known? tree item = none :=
  if_neg noLookup

theorem known?_eq_some_iff {value : Value} : known? tree item = some value ↔
    item.role = .lookup ∧ ∃ found, Table.get? tree.entries item.literal = some found ∧
      found.value = value := by
  unfold known?
  split <;> simp_all

/-- What waits on the stack is no name, so it stays as it is. -/
theorem flatMap_settleItem {stack : List AnnotatedToken}
    (waiting : LooksUp (fun _ => False) stack) : stack.flatMap (settleItem tree) = stack := by
  induction stack with
  | nil => rfl
  | cons token stack inductionHypothesis =>
    obtain ⟨ofToken, ofStack⟩ := looksUp_cons.mp waiting
    rw [List.flatMap_cons, inductionHypothesis ofStack, settleItem, known?_eq_none ofToken]
    rfl

/-- What follows a name stays as it is, if it is looser. -/
theorem looser_paste {rest : List AnnotatedToken} (behind : looser rest = true) :
    looser (rest.flatMap (pasteItem tree)) = true := by
  cases rest with
  | nil => rfl
  | cons next rest =>
    have noLookup : next.role ≠ .lookup := by
      intro isLookup
      simp [looser, isLookup] at behind
    rw [List.flatMap_cons, pasteItem, known?_eq_none noLookup]
    exact behind

/-- The display of a value is arranged like a name, if its sign binds as tightly as that. -/
theorem arrange_items {previous : Option Role} {value : Value} {stack rest output : List AnnotatedToken}
    (fits : value.isNegative = true → expectsOperand previous = true ∧ looser rest = true)
    (arranged : arrange (some .value) stack rest = .ok output) :
    arrange previous stack (value.items ++ rest) = .ok (value.settledItems ++ output) := by
  unfold Value.items Value.settledItems
  cases negative : value.isNegative with
  | false =>
    simp only [Bool.false_eq_true, if_false, List.singleton_append]
    change (arrange (some .value) stack rest >>= fun later =>
      .ok (value.magnitude.literalItem :: later)) = _
    rw [arranged]
    rfl
  | true =>
    obtain ⟨expected, behind⟩ := fits negative
    simp only [if_true, List.cons_append, List.nil_append]
    rw [arrange]
    simp only [show signItem.role = .operator from rfl, expected,
      show signItem.literal = "-" from rfl, and_self, if_true]
    change (arrange (some .value) (negation signItem :: stack) rest >>= fun later =>
      .ok (value.magnitude.literalItem :: later)) = _
    rw [arrange_sign behind arranged]
    rfl

/-- Values in place of names do not change the order of the rest. -/
theorem arrange_paste {previous : Option Role} {stack items output : List AnnotatedToken}
    (pastes : Pastes tree previous items = true) (waiting : LooksUp (fun _ => False) stack)
    (arranged : arrange previous stack items = .ok output) :
    arrange previous stack (items.flatMap (pasteItem tree)) =
      .ok (output.flatMap (settleItem tree)) := by
  have arrangeable := @arrangeable_names fun _ => False
  induction items generalizing previous stack output with
  | nil =>
    have unwound : LooksUp (fun _ => False) output :=
      (arrangeable.settles_unwind waiting).of_ok arranged
    rw [flatMap_settleItem unwound]
    exact arranged
  | cons item rest inductionHypothesis =>
    simp only [Pastes, Bool.and_eq_true] at pastes
    obtain ⟨ofItem, ofRest⟩ := pastes
    rw [List.flatMap_cons, pasteItem]
    cases known : known? tree item with
    | some value =>
      obtain ⟨isLookup, -⟩ := known?_eq_some_iff.mp known
      simp only [known, Option.all_some, Bool.and_eq_true, Bool.or_eq_true] at ofItem
      simp only [arrange, isLookup] at arranged
      obtain ⟨later, laterArranged, equal⟩ := Result.bind_eq_ok_iff.mp arranged
      cases equal
      rw [isLookup] at ofRest
      have pasted := inductionHypothesis ofRest waiting laterArranged
      rw [@arrange_previous (some .lookup) (some .value) rfl] at pasted
      rw [List.flatMap_cons, settleItem, known]
      refine arrange_items (fun negative => ?_) pasted
      obtain ⟨expected, behind⟩ := ofItem.2.resolve_left (by simp [negative])
      exact ⟨expected, looser_paste behind⟩
    | none =>
      obtain ⟨added, below, later, shunts, laterArranged, rfl⟩ := arrange_cons_iff.mp arranged
      have settled : settleItem tree item = [item] := by rw [settleItem, known]
      have goesOn (waiting : LooksUp (fun _ => False) below)
          (addedSettles : added.flatMap (settleItem tree) = added) :
          arrange previous stack ([item] ++ rest.flatMap (pasteItem tree)) =
            .ok ((added ++ later).flatMap (settleItem tree)) := by
        rw [List.flatMap_append, addedSettles]
        exact arrange_cons_iff.mpr
          ⟨added, below, _, shunts, inductionHypothesis ofRest waiting laterArranged, rfl⟩
      cases shunts with
      | operand => exact goesOn waiting (by rw [List.flatMap_singleton, settled])
      | plus => exact goesOn waiting rfl
      | minus => exact goesOn (looksUp_cons.mpr ⟨by rintro ⟨⟩, waiting⟩) rfl
      | binary role noSign releases =>
        have noLookup : item.role ≠ .lookup := by simp [role]
        obtain ⟨released, below⟩ :=
          (arrangeable.settles_release (absurd · noLookup) role waiting).of_ok releases
        exact goesOn (looksUp_cons.mpr ⟨(absurd · noLookup), below⟩) (flatMap_settleItem released)
      | opening role => exact goesOn (looksUp_cons.mpr ⟨by simp [role], waiting⟩) rfl
      | closing role isOpening noneInside split =>
        subst split
        exact goesOn
          (fun other member => waiting other
            (List.mem_append_right _ (List.mem_cons_of_mem _ member)))
          (flatMap_settleItem fun other member =>
            waiting other (List.mem_append_left _ member))

/-! ## Evaluation -/

/-- The tree has the variables of another root scope. -/
def Extends (root tree : Scope) : Prop :=
  ∀ name found, Table.get? root.entries name = some found → Table.get? tree.entries name = some found

theorem push_of_noLookup {root other : Scope} {stack : Operands} (noLookup : item.role ≠ .lookup) :
    push root stack item = push other stack item := by
  unfold push
  split
  · rfl
  · next isLookup => exact absurd isLookup noLookup
  · rfl

/-- The display of a value leaves the value on the stack. -/
theorem pushAll_settledItems {value : Value} (pastes : value.pastes = true) (root : Scope)
    (stack : Operands) (rest : List AnnotatedToken) :
    pushAll root stack (value.settledItems ++ rest) = pushAll root (some value :: stack) rest := by
  unfold Value.settledItems
  cases negative : value.isNegative with
  | false =>
    have same := Value.magnitude_of_nonnegative negative
    simp only [Bool.false_eq_true, if_false, List.singleton_append, same]
    rfl
  | true =>
    have negated : push root (some value.magnitude :: stack) (negation signItem) =
        .ok (some value :: stack) := by
      have applied := Value.negate_magnitude pastes negative (negation signItem).place
      change (Arithmetic.negate value.magnitude (negation signItem).place >>= fun result =>
        .ok (some result :: stack)) = _
      rw [applied]
      rfl
    simp only [if_true, List.cons_append, List.nil_append]
    change (push root (some value.magnitude :: stack) (negation signItem) >>= fun next =>
      pushAll root next rest) = _
    rw [negated]
    rfl

theorem pushAll_settle {root : Scope} (contained : Extends root tree) (other : Scope)
    {postfixed : List AnnotatedToken}
    (pastes : ∀ item ∈ postfixed, ∀ value, known? tree item = some value → value.pastes = true)
    {stack final : Operands} (pushed : pushAll root stack postfixed = .ok final) :
    pushAll other stack (postfixed.flatMap (settleItem tree)) = .ok final := by
  induction postfixed generalizing stack with
  | nil => exact pushed
  | cons item rest inductionHypothesis =>
    obtain ⟨ofItem, ofRest⟩ := List.forall_mem_cons.mp pastes
    obtain ⟨next, stepped, pushed⟩ := Result.bind_eq_ok_iff.mp pushed
    have later := inductionHypothesis ofRest pushed
    rw [List.flatMap_cons, settleItem]
    by_cases isLookup : item.role = .lookup
    · simp only [push, isLookup] at stepped
      cases found : Table.get? root.entries item.literal with
      | none => simp [found, fail] at stepped
      | some entry =>
        rw [found] at stepped
        cases stepped
        have known : known? tree item = some entry.value :=
          known?_eq_some_iff.mpr ⟨isLookup, entry, contained _ _ found, rfl⟩
        simp only [known]
        rw [pushAll_settledItems (ofItem _ known)]
        exact later
    · simp only [known?_eq_none isLookup, List.singleton_append, pushAll]
      rw [push_of_noLookup isLookup, stepped]
      exact later

/-- The values of names paste wherever the names are put. -/
theorem arrangeable_pastes : Arrangeable (fun _ => True)
    (fun token => ∀ value, known? tree token = some value → value.pastes = true) where
  refused _ _ _ _ := trivial
  ranked _ _ _ := yields_true _
  negated token _ value known := by
    rw [known?_eq_none (by simp [negation])] at known
    cases known

theorem pastes_of_mem {previous : Option Role} {items : List AnnotatedToken}
    (pastes : Pastes tree previous items = true) :
    ∀ item ∈ items, ∀ value, known? tree item = some value → value.pastes = true := by
  induction items generalizing previous with
  | nil => simp
  | cons item rest inductionHypothesis =>
    simp only [Pastes, Bool.and_eq_true] at pastes
    refine List.forall_mem_cons.mpr ⟨fun value known => ?_, inductionHypothesis pastes.2⟩
    have ofItem := pastes.1
    simp only [known, Option.all_some, Bool.and_eq_true] at ofItem
    exact ofItem.1

/-- The display of a value has that value. -/
theorem evaluate_items {value : Value} (pastes : value.pastes = true) (verbosity : Nat)
    (root : Scope) : (evaluate verbosity root value.items).outcome = .ok (some value) := by
  have arranged : toPostfix value.items = .ok value.settledItems := by
    have appended := @arrange_items none value [] [] [] (fun _ => ⟨rfl, rfl⟩) rfl
    rwa [List.append_nil, List.append_nil] at appended
  have pushed := pushAll_settledItems pastes root [] []
  rw [List.append_nil] at pushed
  exact evaluate_eq_ok_iff.mpr ⟨_, arranged, pushed⟩

/-- With the values of a tree in place of its names an expression has the value it had, wherever it
is evaluated.  The tree may have more variables than the one in which the expression had it. -/
theorem evaluate_paste {root : Scope} (contained : Extends root tree)
    {items pasted : List AnnotatedToken} (pastes : Pastes tree none items = true)
    (same : List.Forall₂ SameItem (items.flatMap (pasteItem tree)) pasted) {verbosity : Nat}
    {value : Option Value} (evaluated : (evaluate verbosity root items).outcome = .ok value)
    (otherVerbosity : Nat) (other : Scope) :
    (evaluate otherVerbosity other pasted).outcome = .ok value := by
  obtain ⟨postfixed, arranged, evaluated⟩ := evaluate_eq_ok_iff.mp evaluated
  have settled := arrange_paste pastes looksUp_nil arranged
  have ofPostfixed := (arrangeable_pastes.settles_arrange (pastes_of_mem pastes) none
    (by simp)).of_ok arranged
  have pushed := pushAll_settle contained other ofPostfixed evaluated
  have whole : (evaluate otherVerbosity other (items.flatMap (pasteItem tree))).outcome =
      .ok value := evaluate_eq_ok_iff.mpr ⟨_, settled, pushed⟩
  exact (alike_evaluate otherVerbosity otherVerbosity other same).ok_iff.mp whole

end Expression

end ParaLang
