import ParaLang.Proofs.Annotations.Programs
import ParaLang.Proofs.Expression.Infix

/-! # Written expressions

The ways in which a tree can be written down: with any parentheses the binding strengths ask for
or allow, and with the multiplication sign left out where a parenthesis touches an operand or
another parenthesis.  Annotation extracts every such text as one expression, and evaluating that
expression gives the value of the tree. -/

namespace ParaLang.Expression

open ParaLang.Annotations ParaLang.Grammar

/-! ## Renderings -/

/-- Whether the multiplication sign between two neighbours may be left out. -/
def touches (left right : TokenKind) : Bool :=
  if right = .leftParen then left.isLiteral || left == .identifier || left == .rightParen
  else left == .rightParen && (right.isLiteral || right == .identifier)

/-- The lists of tokens that write a tree at a level.  A sign that is left out is reported at the
token in front of which it belongs. -/
inductive Renders : Level → Tree → List NumberedToken → Prop where
  | loosen {level tree tokens} : Renders level.tighter tree tokens → Renders level tree tokens
  | binary {level left right leftTokens rightTokens} {operator : NumberedToken} :
      Renders level left leftTokens → operator.kind.isOperator = true →
      operator.literal ∈ level.symbols → Renders level.tighter right rightTokens →
      Renders level (.binary operator.literal operator.place left right)
        (leftTokens ++ operator :: rightTokens)
  | implied {left right leftTokens rightTokens} {last first : NumberedToken} :
      Renders .product left (leftTokens ++ [last]) → touches last.kind first.kind = true →
      Renders .signed right (first :: rightTokens) →
      Renders .product (.binary "*" first.place left right)
        (leftTokens ++ [last] ++ first :: rightTokens)
  | negation {operand tokens} {sign : NumberedToken} :
      sign.kind.isOperator = true → sign.literal = "-" → Renders .signed operand tokens →
      Renders .signed (.negation sign.place operand) (sign :: tokens)
  | identity {operand tokens} {sign : NumberedToken} :
      sign.kind.isOperator = true → sign.literal = "+" → Renders .signed operand tokens →
      Renders .signed (.identity operand) (sign :: tokens)
  | power {base exponent baseTokens exponentTokens} {operator : NumberedToken} :
      Renders .atom base baseTokens → operator.kind.isOperator = true → operator.literal = "^" →
      Renders .signed exponent exponentTokens →
      Renders .power (.binary operator.literal operator.place base exponent)
        (baseTokens ++ operator :: exponentTokens)
  | literal {value} {token : NumberedToken} :
      token.kind.isLiteral = true → literalValue token = .ok value →
      Renders .atom (.literal value) [token]
  | name {token : NumberedToken} :
      token.kind = .identifier → Renders .atom (.name token.literal token.place) [token]
  | parentheses {tree tokens} {opening closing : NumberedToken} :
      opening.kind = .leftParen → Renders .sum tree tokens → closing.kind = .rightParen →
      Renders .atom tree (opening :: tokens ++ [closing])

/-! ## The items of a rendering -/

/-- Where a sign may be left out, annotation inserts it. -/
theorem juxtaposed_of_touches {left right : TokenKind} (touching : touches left right = true) :
    juxtaposed (itemRole left) (itemRole right) = true := by
  simp only [touches] at touching
  split at touching
  · rename_i opens
    simp only [Bool.or_eq_true, beq_iff_eq] at touching
    rw [opens]
    rcases touching with (isLiteral | isName) | closes
    · rw [itemRole_literal isLiteral]; rfl
    · rw [isName]; rfl
    · rw [closes]; rfl
  · simp only [Bool.and_eq_true, Bool.or_eq_true, beq_iff_eq] at touching
    rw [touching.1]
    rcases touching.2 with isLiteral | isName
    · rw [itemRole_literal isLiteral]; rfl
    · rw [isName]; rfl

/-- Annotation turns a rendering into an infix run of the same tree. -/
theorem items_of_renders {level : Level} {tree : Tree} {tokens : List NumberedToken}
    (renders : Renders level tree tokens) :
    ∃ items, expressionItems none tokens = .ok items ∧ Infix level tree items := by
  induction renders with
  | loosen _ inner =>
    obtain ⟨items, read, grammar⟩ := inner
    exact ⟨items, read, .loosen grammar⟩
  | @binary level left right leftTokens rightTokens operator _ isOperator member _ leftRead
      rightRead =>
    obtain ⟨leftItems, leftRead, leftGrammar⟩ := leftRead
    obtain ⟨rightItems, rightRead, rightGrammar⟩ := rightRead
    refine ⟨leftItems ++ operator.inRole .operator :: rightItems, ?_, ?_⟩
    · simp [expressionItems_append, leftRead, expressionItems_operator _ isOperator, rightRead]
    · exact @Infix.binary _ _ _ _ _ (operator.inRole .operator) leftGrammar rfl member rightGrammar
  | @implied left right leftTokens rightTokens last first _ touching _ leftRead rightRead =>
    obtain ⟨leftItems, leftRead, leftGrammar⟩ := leftRead
    obtain ⟨rightItems, rightRead, rightGrammar⟩ := rightRead
    simp only [expressionItems, Result.bind_eq_ok_iff, Option.any_none, Bool.false_eq_true,
      if_false, Result.pure_eq_ok, Except.ok.injEq] at rightRead
    obtain ⟨item, itemRead, later, laterRead, rfl⟩ := rightRead
    have inserts : juxtaposed (itemRole last.kind) item.role = true := by
      rw [role_expressionItem itemRead]
      exact juxtaposed_of_touches touching
    have samePlace : (insertedStar item).place = first.place :=
      (place_insertedStar item).trans (place_expressionItem itemRead)
    refine ⟨leftItems ++ insertedStar item :: item :: later, ?_, ?_⟩
    · rw [expressionItems_append, leftRead]
      simp [roleAfter, expressionItems, itemRead, laterRead, inserts]
    · rw [← samePlace]
      have member : (insertedStar item).literal ∈ Level.product.symbols := by
        simp [insertedStar, Level.symbols]
      exact .binary leftGrammar rfl member rightGrammar
  | @negation operand tokens sign isOperator symbol _ read =>
    obtain ⟨items, read, grammar⟩ := read
    refine ⟨sign.inRole .operator :: items, ?_, ?_⟩
    · simp [expressionItems_operator _ isOperator, read]
    · exact @Infix.negation _ _ (sign.inRole .operator) rfl symbol grammar
  | @identity operand tokens sign isOperator symbol _ read =>
    obtain ⟨items, read, grammar⟩ := read
    refine ⟨sign.inRole .operator :: items, ?_, ?_⟩
    · simp [expressionItems_operator _ isOperator, read]
    · exact @Infix.identity _ _ (sign.inRole .operator) rfl symbol grammar
  | @power base exponent baseTokens exponentTokens operator _ isOperator symbol _ baseRead read =>
    obtain ⟨baseItems, baseRead, baseGrammar⟩ := baseRead
    obtain ⟨items, read, grammar⟩ := read
    refine ⟨baseItems ++ operator.inRole .operator :: items, ?_, ?_⟩
    · simp [expressionItems_append, baseRead, expressionItems_operator _ isOperator, read]
    · exact @Infix.power _ _ _ _ (operator.inRole .operator) baseGrammar rfl symbol grammar
  | @literal value token isLiteral read =>
    have itemRead : expressionItem token = .ok (literalToken token value) :=
      expressionItem_eq_ok_iff.mpr (.inl ⟨isLiteral, value, read, rfl⟩)
    exact ⟨[literalToken token value], by simp [expressionItems, itemRead], .literal rfl rfl⟩
  | @name token isName =>
    have itemRead : expressionItem token = .ok (token.inRole .lookup) :=
      expressionItem_of_eq isName rfl rfl
    refine ⟨[token.inRole .lookup], by simp [expressionItems, itemRead], ?_⟩
    exact @Infix.name (token.inRole .lookup) rfl
  | @parentheses tree tokens opening closing opens _ closes read =>
    obtain ⟨items, read, grammar⟩ := read
    have openingRead : expressionItem opening = .ok (opening.inRole .leftParen) :=
      expressionItem_of_eq opens rfl rfl
    refine ⟨opening.inRole .leftParen :: items ++ [closing.inRole .rightParen], ?_, ?_⟩
    · rw [List.cons_append, expressionItems, openingRead]
      simp only [Result.ok_bind, NumberedToken.role_inRole, Option.any_none, Bool.false_eq_true,
        if_false, expressionItems_after juxtaposed_leftParen, expressionItems_append, read,
        expressionItems_closing _ closes, Result.pure_eq_ok, List.cons_append]
    · exact .parentheses rfl grammar rfl

/-! ## Annotating and evaluating a rendering -/

theorem ofTokens_append_singleton (count : Nat) (tokens : List Token) (last : Token) :
    ∃ number, NumberedToken.ofTokens count (tokens ++ [last]) =
      NumberedToken.ofTokens count tokens ++ [⟨last, number⟩] := by
  induction tokens generalizing count with
  | nil => exact ⟨count + 1, rfl⟩
  | cons token tokens inductionHypothesis =>
    obtain ⟨number, equation⟩ :=
      inductionHypothesis (if token.kind = .newline then 0 else count + 1)
    exact ⟨number, by simp only [List.cons_append, NumberedToken.ofTokens, equation]⟩

theorem any_ofTokens (accepts : TokenKind → Bool) (count : Nat) (tokens : List Token) :
    (NumberedToken.ofTokens count tokens).any (accepts ·.kind) = tokens.any (accepts ·.kind) := by
  induction tokens generalizing count with
  | nil => rfl
  | cons token tokens inductionHypothesis =>
    simp only [NumberedToken.ofTokens, List.any_cons, inductionHypothesis]
    rfl

/-- The assignment of a run to a single name. -/
def assignmentOf (name equals first : NumberedToken) (more : List NumberedToken) :
    Statement NumberedToken :=
  ⟨.name ⟨⟨[], name⟩, [], none⟩, [], some ⟨equals, .expression first more, []⟩⟩

theorem sound_assignment {name equals first : NumberedToken} {more : List NumberedToken}
    {items : List AnnotatedToken} (isName : name.kind = .identifier)
    (isEquals : equals.kind = .equals) (read : expressionItems none (first :: more) = .ok items)
    (arithmetic : (first :: more).any (isArithmetic ·.kind) = true) :
    Sound (assignmentOf name equals first more) where
  kinds := by
    refine ⟨⟨⟨by simp, isName⟩, by simp [Modifiers], by simp⟩, by simp [assignmentOf], ?_⟩
    rintro _ ⟨⟩
    exact ⟨isEquals, ⟨kinds_of_items read, arithmetic⟩, by simp⟩
  compatible := by
    simp [Statement.Compatible, Segment.Compatible, Compatible, Definition.allModifiers,
      assignmentOf]
  readable := by
    intro token member literal
    have inside : token = name ∨ token = equals ∨ token ∈ first :: more := by
      simpa [assignmentOf, Statement.leaves, Segment.leaves, Definition.leaves, Path.leaves,
        segmentLeaves, Binding.leaves, RightHandSide.leaves, inspectedLeaves] using member
    rcases inside with rfl | rfl | inside
    · simp [isName, TokenKind.isLiteral] at literal
    · simp [isEquals, TokenKind.isLiteral] at literal
    · exact readable_of_items read token inside literal

/-- An arithmetic right-hand side of an assignment at root level becomes one expression. -/
theorem annotate_assignment {name equals finish : Token} {rendering : List Token}
    {items : List AnnotatedToken} (isName : name.kind = .identifier)
    (isEquals : equals.kind = .equals) (isEnd : finish.kind = .endOfInput)
    (read : expressionItems none (NumberedToken.ofTokens 2 rendering) = .ok items)
    (arithmetic : rendering.any (isArithmetic ·.kind) = true) :
    ∃ target assign expression last,
      annotate (name :: equals :: rendering ++ [finish]) = .ok [target, assign, expression, last] ∧
      target.role = .identifier ∧ assign.role = .assign ∧ expression.role = .expression ∧
      expression.expression = some items ∧ last.role = .endOfInput := by
  obtain ⟨number, numbered⟩ := ofTokens_append_singleton 2 rendering finish
  cases run : NumberedToken.ofTokens 2 rendering with
  | nil =>
    have empty := any_ofTokens isArithmetic 2 rendering
    rw [run, arithmetic] at empty
    cases empty
  | cons first more =>
    rw [run] at read numbered
    have extracted : (first :: more).any (isArithmetic ·.kind) = true := by
      rw [← run, any_ofTokens isArithmetic, arithmetic]
    have reads : Reads [] (⟨name, 1⟩ :: ⟨equals, 2⟩ :: (first :: more ++ [⟨finish, number⟩]))
        [NumberedToken.inRole ⟨name, 1⟩ .identifier, NumberedToken.inRole ⟨equals, 2⟩ .assign,
          extractedToken first more items, NumberedToken.inRole ⟨finish, number⟩ .endOfInput] := by
      have reads := @Reads.finish (assignmentOf ⟨name, 1⟩ ⟨equals, 2⟩ first more)
        ⟨finish, number⟩ [] (sound_assignment isName isEquals read extracted) isEnd
      simpa [assignmentOf, Statement.leaves, Segment.leaves, Definition.leaves, Path.leaves,
        segmentLeaves, Binding.leaves, RightHandSide.leaves, inspectedLeaves, statementTokens,
        segmentTokens, definitionTokens, pathTokens, spliced, State.blockPath, linkTokens,
        Definition.allModifiers, clauseTokens, moreTokens, bindingTokens, inheritedTokens,
        valueTokens, expressionToken_of_items read, inspectedTokens, Except.toOption] using reads
    refine ⟨NumberedToken.inRole ⟨name, 1⟩ .identifier, NumberedToken.inRole ⟨equals, 2⟩ .assign,
      extractedToken first more items, NumberedToken.inRole ⟨finish, number⟩ .endOfInput, ?_, rfl,
      rfl, rfl, rfl, rfl⟩
    have tokens : NumberedToken.ofTokens 0 (name :: equals :: rendering ++ [finish]) =
        ⟨name, 1⟩ :: ⟨equals, 2⟩ :: (first :: more ++ [⟨finish, number⟩]) := by
      rw [← numbered]
      simp [NumberedToken.ofTokens, isName, isEquals]
    have last : (name :: equals :: rendering ++ [finish]).getLast? = some finish :=
      List.getLast?_concat
    rw [annotate, last, tokens, walk_program reads]
    simp [isEnd]

/-- Evaluating the expression that annotation makes of a rendering gives the value of its tree, or
the first error on the way from left to right. -/
theorem evaluate_rendering {name equals finish : Token} {rendering : List Token} {tree : Tree}
    (isName : name.kind = .identifier) (isEquals : equals.kind = .equals)
    (isEnd : finish.kind = .endOfInput)
    (renders : Renders .sum tree (NumberedToken.ofTokens 2 rendering))
    (arithmetic : rendering.any (isArithmetic ·.kind) = true) :
    ∃ target assign expression last run,
      annotate (name :: equals :: rendering ++ [finish]) = .ok [target, assign, expression, last] ∧
      target.role = .identifier ∧ assign.role = .assign ∧ expression.role = .expression ∧
      expression.expression = some run ∧ last.role = .endOfInput ∧
      ∀ (verbosity : Nat) (root : Scope),
        (evaluate verbosity root run).outcome = some <$> tree.evaluate root := by
  obtain ⟨run, read, grammar⟩ := items_of_renders renders
  obtain ⟨target, assign, expression, last, annotated, isTarget, isAssign, isExpression, hasRun,
    isLast⟩ := annotate_assignment isName isEquals isEnd read arithmetic
  exact ⟨target, assign, expression, last, run, annotated, isTarget, isAssign, isExpression, hasRun,
    isLast, fun verbosity root => evaluate_infix grammar verbosity root⟩

/-- `x = 2 (a + 3)`, where the sign in front of the parenthesis is left out. -/
theorem evaluate_rendering_implied :
    let name : Token := ⟨.identifier, "x", 1, 1⟩
    let equals : Token := ⟨.equals, "=", 1, 3⟩
    let finish : Token := ⟨.endOfInput, "", 1, 14⟩
    let rendering : List Token := [⟨.int, "2", 1, 5⟩, ⟨.leftParen, "(", 1, 7⟩,
      ⟨.identifier, "a", 1, 8⟩, ⟨.plus, "+", 1, 10⟩, ⟨.int, "3", 1, 12⟩, ⟨.rightParen, ")", 1, 13⟩]
    let tree : Tree := .binary "*" ⟨1, 4⟩ (.literal (.int 2))
      (.binary "+" ⟨1, 6⟩ (.name "a" ⟨1, 5⟩) (.literal (.int 3)))
    ∃ target assign expression last run,
      annotate (name :: equals :: rendering ++ [finish]) = .ok [target, assign, expression, last] ∧
      target.role = .identifier ∧ assign.role = .assign ∧ expression.role = .expression ∧
      expression.expression = some run ∧ last.role = .endOfInput ∧
      ∀ (verbosity : Nat) (root : Scope),
        (evaluate verbosity root run).outcome = some <$> tree.evaluate root := by
  intro name equals finish rendering tree
  have two : Renders .atom (.literal (.int 2)) [⟨⟨.int, "2", 1, 5⟩, 3⟩] := .literal rfl rfl
  have three : Renders .atom (.literal (.int 3)) [⟨⟨.int, "3", 1, 12⟩, 7⟩] := .literal rfl rfl
  have member : Renders .atom (.name "a" ⟨1, 5⟩) [⟨⟨.identifier, "a", 1, 8⟩, 5⟩] :=
    @Renders.name ⟨⟨.identifier, "a", 1, 8⟩, 5⟩ rfl
  have inner : Renders .sum (.binary "+" ⟨1, 6⟩ (.name "a" ⟨1, 5⟩) (.literal (.int 3)))
      [⟨⟨.identifier, "a", 1, 8⟩, 5⟩, ⟨⟨.plus, "+", 1, 10⟩, 6⟩, ⟨⟨.int, "3", 1, 12⟩, 7⟩] :=
    @Renders.binary .sum _ _ [_] [_] ⟨⟨.plus, "+", 1, 10⟩, 6⟩
      (.loosen (.loosen (.loosen (.loosen member)))) rfl (by decide)
      (.loosen (.loosen (.loosen three)))
  have outer : Renders .atom (.binary "+" ⟨1, 6⟩ (.name "a" ⟨1, 5⟩) (.literal (.int 3)))
      (⟨⟨.leftParen, "(", 1, 7⟩, 4⟩ :: [_, _, _] ++ [⟨⟨.rightParen, ")", 1, 13⟩, 8⟩]) :=
    .parentheses rfl inner rfl
  have whole : Renders .sum tree (NumberedToken.ofTokens 2 rendering) :=
    .loosen (@Renders.implied _ _ [] _ ⟨⟨.int, "2", 1, 5⟩, 3⟩ ⟨⟨.leftParen, "(", 1, 7⟩, 4⟩
      (.loosen (.loosen (.loosen two))) rfl (.loosen (.loosen outer)))
  exact evaluate_rendering rfl rfl rfl whole rfl

end ParaLang.Expression
