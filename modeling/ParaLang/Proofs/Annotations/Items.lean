import ParaLang.Annotations
import ParaLang.Expression.Postfix
import ParaLang.Proofs.Grammar
import ParaLang.Proofs.Result

/-! # Items of expressions

What annotation makes of the tokens of an expression, one by one and in a run. -/

namespace ParaLang.Annotations.NumberedToken

def place (numbered : NumberedToken) : Place :=
  ⟨numbered.token.line, numbered.number⟩

@[simp] theorem role_inRole (numbered : NumberedToken) (role : Role) :
    (numbered.inRole role).role = role := rfl

@[simp] theorem literal_inRole (numbered : NumberedToken) (role : Role) :
    (numbered.inRole role).literal = numbered.literal := rfl

@[simp] theorem place_inRole (numbered : NumberedToken) (role : Role) :
    (numbered.inRole role).place = numbered.place := rfl

end ParaLang.Annotations.NumberedToken

namespace ParaLang.Annotations

open ParaLang.Grammar (inExpression)

/-! ## Single items -/

/-- A literal with its value. -/
def literalToken (token : NumberedToken) (value : Value) : AnnotatedToken :=
  { token.inRole .value with value := some value, type := some (literalType token.kind) }

@[simp] theorem role_literalToken (token : NumberedToken) (value : Value) :
    (literalToken token value).role = .value := rfl

theorem valueToken_of_literalValue {token : NumberedToken} {value : Value}
    (read : literalValue token = .ok value) : valueToken token = .ok (literalToken token value) := by
  simp only [valueToken, read, Result.ok_bind]
  rfl

/-- The role of a token inside an expression. -/
def itemRole (kind : TokenKind) : Role :=
  if kind.isLiteral then .value
  else if kind.isOperator then .operator
  else match kind with
    | .identifier => .lookup
    | .leftParen => .leftParen
    | .rightParen => .rightParen
    | _ => .arrow

theorem itemRole_literal {kind : TokenKind} (literal : kind.isLiteral = true) :
    itemRole kind = .value := by
  simp [itemRole, literal]

theorem not_literal_of_operator {kind : TokenKind} (operator : kind.isOperator = true) :
    kind.isLiteral = false := by
  cases kind <;> simp_all [TokenKind.isOperator, TokenKind.isLiteral]

theorem itemRole_operator {kind : TokenKind} (operator : kind.isOperator = true) :
    itemRole kind = .operator := by
  simp [itemRole, operator, not_literal_of_operator operator]

/-- A literal needs a value; any other token of an expression only takes its role. -/
theorem expressionItem_eq_ok_iff {token : NumberedToken} {item : AnnotatedToken} :
    expressionItem token = .ok item ↔
      (token.kind.isLiteral = true ∧ ∃ value, literalValue token = .ok value ∧
        item = literalToken token value) ∨
      (token.kind.isLiteral = false ∧ inExpression token.kind = true ∧
        item = token.inRole (itemRole token.kind)) := by
  unfold expressionItem
  split
  · rename_i literal
    simp only [valueToken, Result.bind_eq_ok_iff, Result.pure_eq_ok, Except.ok.injEq, literal,
      true_and, Bool.true_eq_false, false_and, or_false]
    exact exists_congr fun value => and_congr_right fun _ => eq_comm
  · rename_i notLiteral
    have literal : token.kind.isLiteral = false := by simpa using notLiteral
    simp only [literal, Bool.false_eq_true, false_and, true_and, false_or]
    split
    · rename_i operator
      simp [inExpression, itemRole_operator operator, operator, eq_comm]
    · rename_i notOperator
      split
      case h_5 =>
        have outside : inExpression token.kind = false := by simp_all [inExpression]
        simp [outside, refuse, fail]
      all_goals
        rename_i isKind
        simp [isKind, inExpression, itemRole, TokenKind.isLiteral, TokenKind.isOperator]
        exact eq_comm

theorem role_expressionItem {token : NumberedToken} {item : AnnotatedToken}
    (read : expressionItem token = .ok item) : item.role = itemRole token.kind := by
  rcases expressionItem_eq_ok_iff.mp read with ⟨literal, _, _, rfl⟩ | ⟨_, _, rfl⟩
  · simp [itemRole_literal literal]
  · rfl

theorem place_expressionItem {token : NumberedToken} {item : AnnotatedToken}
    (read : expressionItem token = .ok item) : item.place = token.place := by
  rcases expressionItem_eq_ok_iff.mp read with ⟨_, _, _, rfl⟩ | ⟨_, _, rfl⟩ <;> rfl

theorem place_insertedStar (item : AnnotatedToken) : (insertedStar item).place = item.place := rfl

theorem expressionItem_of_kind {token : NumberedToken} (literal : token.kind.isLiteral = false)
    (belongs : inExpression token.kind = true) :
    expressionItem token = .ok (token.inRole (itemRole token.kind)) :=
  expressionItem_eq_ok_iff.mpr (.inr ⟨literal, belongs, rfl⟩)

theorem expressionItem_of_eq {token : NumberedToken} {kind : TokenKind} (isKind : token.kind = kind)
    (literal : kind.isLiteral = false) (belongs : inExpression kind = true) :
    expressionItem token = .ok (token.inRole (itemRole kind)) := by
  subst isKind
  exact expressionItem_of_kind literal belongs

theorem expressionItem_operator {token : NumberedToken} (operator : token.kind.isOperator = true) :
    expressionItem token = .ok (token.inRole .operator) := by
  rw [expressionItem_of_kind (not_literal_of_operator operator) (by simp [inExpression, operator]),
    itemRole_operator operator]

/-! ## Runs of items -/

/-- The role of the token before what follows a list. -/
def roleAfter (previous : Option Role) (tokens : List NumberedToken) : Option Role :=
  match tokens.getLast? with
  | none => previous
  | some last => some (itemRole last.kind)

theorem expressionItems_append (previous : Option Role) (tokens rest : List NumberedToken) :
    expressionItems previous (tokens ++ rest) = do
      let items ← expressionItems previous tokens
      let later ← expressionItems (roleAfter previous tokens) rest
      return items ++ later := by
  induction tokens generalizing previous with
  | nil =>
    simp only [List.nil_append, expressionItems, Result.ok_bind, roleAfter, List.getLast?_nil]
    exact (bind_pure _).symm
  | cons token tokens inductionHypothesis =>
    simp only [List.cons_append, expressionItems]
    cases read : expressionItem token with
    | error failure => rfl
    | ok item =>
      have same : roleAfter (some item.role) tokens = roleAfter previous (token :: tokens) := by
        cases tokens with
        | nil => simp [roleAfter, role_expressionItem read]
        | cons next later =>
          have last := List.getLast?_eq_some_getLast (List.cons_ne_nil next later)
          simp only [roleAfter, List.getLast?_cons_cons, last]
      simp only [Result.ok_bind, inductionHypothesis, same, bind_assoc]
      congr 1
      funext items
      cases expressionItems (roleAfter previous (token :: tokens)) rest with
      | error failure => split <;> rfl
      | ok later => split <;> simp

theorem juxtaposed_operator (role : Role) : juxtaposed .operator role = false := by
  cases role <;> rfl

theorem juxtaposed_leftParen (role : Role) : juxtaposed .leftParen role = false := by
  cases role <;> rfl

/-- Nothing is inserted after an operator or an opening parenthesis. -/
theorem expressionItems_after {previous : Role} (blunt : ∀ role, juxtaposed previous role = false)
    (tokens : List NumberedToken) :
    expressionItems (some previous) tokens = expressionItems none tokens := by
  cases tokens with
  | nil => rfl
  | cons token rest => simp [expressionItems, blunt]

theorem expressionItems_operator (previous : Option Role) {token : NumberedToken}
    (operator : token.kind.isOperator = true) (rest : List NumberedToken) :
    expressionItems previous (token :: rest) =
      (token.inRole .operator :: ·) <$> expressionItems none rest := by
  have nothing : previous.any (juxtaposed · .operator) = false := by
    cases previous with
    | none => rfl
    | some role => cases role <;> rfl
  simp only [expressionItems, expressionItem_operator operator, Result.ok_bind,
    NumberedToken.role_inRole, expressionItems_after juxtaposed_operator, nothing,
    Bool.false_eq_true, if_false]
  rfl

theorem expressionItems_closing (previous : Option Role) {token : NumberedToken}
    (closes : token.kind = .rightParen) :
    expressionItems previous [token] = .ok [token.inRole .rightParen] := by
  have read : expressionItem token = .ok (token.inRole .rightParen) :=
    expressionItem_of_eq closes rfl rfl
  have nothing : previous.any (juxtaposed · .rightParen) = false := by
    cases previous with
    | none => rfl
    | some role => cases role <;> rfl
  simp [expressionItems, read, nothing]

/-- What holds of the item of each token, and of the multiplication in front of it if one is
inserted, holds of all items. -/
theorem forall_items {property : AnnotatedToken → Prop}
    (ofStar : ∀ item, property item → property (insertedStar item)) {previous : Option Role}
    {tokens : List NumberedToken}
    (ofToken : ∀ token ∈ tokens, ∀ item, expressionItem token = .ok item → property item)
    {items : List AnnotatedToken} (read : expressionItems previous tokens = .ok items) :
    ∀ item ∈ items, property item := by
  induction tokens generalizing previous items with
  | nil =>
    cases read
    simp
  | cons token tokens inductionHypothesis =>
    obtain ⟨ofFirst, ofRest⟩ := List.forall_mem_cons.mp ofToken
    simp only [expressionItems, Result.bind_eq_ok_iff] at read
    obtain ⟨item, itemRead, later, laterRead, equal⟩ := read
    have ofItems := List.forall_mem_cons.mpr
      ⟨ofFirst item itemRead, inductionHypothesis ofRest laterRead⟩
    split at equal <;> cases equal
    · exact List.forall_mem_cons.mpr ⟨ofStar item (ofFirst item itemRead), ofItems⟩
    · exact ofItems

/-- An extracted run with its items. -/
def extractedToken (first : NumberedToken) (more : List NumberedToken)
    (items : List AnnotatedToken) : AnnotatedToken :=
  { first.inRole .expression with
    literal := " ".intercalate ((first :: more).map NumberedToken.literal)
    expression := some items }

theorem expressionToken_of_items {first : NumberedToken} {more : List NumberedToken}
    {items : List AnnotatedToken} (read : expressionItems none (first :: more) = .ok items) :
    expressionToken first more = .ok (extractedToken first more items) := by
  simp only [expressionToken, read, Result.ok_bind]
  rfl

/-! ## Right-hand sides -/

theorem kind_of_item {token : NumberedToken} {item : AnnotatedToken}
    (read : expressionItem token = .ok item) : inExpression token.kind = true := by
  rcases expressionItem_eq_ok_iff.mp read with ⟨literal, _⟩ | ⟨_, belongs, _⟩
  · simp [inExpression, literal]
  · exact belongs

theorem kinds_of_items {previous : Option Role} {tokens : List NumberedToken}
    {items : List AnnotatedToken} (read : expressionItems previous tokens = .ok items) :
    ∀ token ∈ tokens, inExpression token.kind = true := by
  induction tokens generalizing previous items with
  | nil => simp
  | cons token rest inductionHypothesis =>
    simp only [expressionItems, Result.bind_eq_ok_iff] at read
    obtain ⟨item, itemRead, later, laterRead, _⟩ := read
    intro other member
    rcases List.mem_cons.mp member with rfl | member
    · exact kind_of_item itemRead
    · exact inductionHypothesis laterRead other member

theorem rightHandSide_append {run rest : List NumberedToken} {terminator : NumberedToken}
    (inside : ∀ token ∈ run, endsRightHandSide token.kind = false ∧ token.kind ≠ .equals)
    (ends : endsRightHandSide terminator.kind = true) :
    rightHandSide (run ++ terminator :: rest) = .ok run := by
  induction run with
  | nil => simp [rightHandSide, ends]
  | cons token run inductionHypothesis =>
    obtain ⟨goesOn, noAssignment⟩ := inside token (by simp)
    have later := inductionHypothesis fun other member => inside other (by simp [member])
    simp [rightHandSide, goesOn, noAssignment, later]

/-- No token of an expression ends a right-hand side or assigns again. -/
theorem endsRightHandSide_of_inExpression {kind : TokenKind} (belongs : inExpression kind = true) :
    endsRightHandSide kind = false ∧ kind ≠ .equals := by
  cases kind <;> simp_all [inExpression, endsRightHandSide, TokenKind.isLiteral,
    TokenKind.isOperator]

end ParaLang.Annotations
