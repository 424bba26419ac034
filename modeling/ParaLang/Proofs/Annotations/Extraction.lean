import ParaLang.Proofs.Annotations.Origins
import ParaLang.Proofs.Expression.Precedence
import ParaLang.Proofs.Interpretation.Soundness

/-! # Extracted expressions

Annotation extracts a right-hand side whatever the order of its tokens, and it only writes the
multiplications that are left out.  Evaluation refuses most of the orders that make no sense; operands
side by side, with their operator behind them, are the exception. -/

namespace ParaLang

namespace Annotations

open ParaLang.Expression (Complete Ordinary negationSymbol)
open ParaLang.Grammar

/-- The items of an expression, each a raw token, are spelled like no negation. -/
def NoNegation (token : NumberedToken) : Prop :=
  token.kind.isOperator = true → token.literal ≠ negationSymbol

theorem ordinary_expressionItem {token : NumberedToken} (spelled : NoNegation token)
    {item : AnnotatedToken} (read : expressionItem token = .ok item) : Ordinary item := by
  rcases expressionItem_eq_ok_iff.mp read with ⟨-, value, -, rfl⟩ | ⟨noLiteral, -, rfl⟩
  · exact ⟨fun _ => rfl, by rintro ⟨⟩⟩
  · refine ⟨fun isValue => ?_, fun isOperator => spelled ?_⟩
    · have role : itemRole token.kind = .value := isValue
      cases kind : token.kind <;> simp_all [itemRole, TokenKind.isLiteral, TokenKind.isOperator]
    · have role : itemRole token.kind = .operator := isOperator
      cases kind : token.kind <;> simp_all [itemRole, TokenKind.isLiteral, TokenKind.isOperator]

theorem ordinary_insertedStar (item : AnnotatedToken) : Ordinary (insertedStar item) :=
  ⟨by rintro ⟨⟩, fun _ => show ("*" : String) ≠ negationSymbol by decide⟩

theorem ordinary_expressionItems {previous : Option Role} {tokens : List NumberedToken}
    (spelled : ∀ token ∈ tokens, NoNegation token) {items : List AnnotatedToken}
    (read : expressionItems previous tokens = .ok items) : ∀ item ∈ items, Ordinary item :=
  forall_items (fun item _ => ordinary_insertedStar item)
    (fun token member _ itemRead => ordinary_expressionItem (spelled token member) itemRead) read

/-- Annotation leaves no multiplication out. -/
theorem complete_expressionItems {previous : Option Role} {tokens : List NumberedToken}
    {items : List AnnotatedToken} (read : expressionItems previous tokens = .ok items) :
    Complete items ∧
      ∀ first ∈ items.head?, previous.any (juxtaposed · first.role) = false := by
  induction tokens generalizing previous items with
  | nil =>
    cases read
    exact ⟨List.IsChain.nil, by simp⟩
  | cons token tokens inductionHypothesis =>
    simp only [expressionItems, Result.bind_eq_ok_iff] at read
    obtain ⟨item, itemRead, later, laterRead, equal⟩ := read
    obtain ⟨completeLater, untouched⟩ := inductionHypothesis laterRead
    have complete : Complete (item :: later) :=
      List.isChain_cons.mpr ⟨by simpa using untouched, completeLater⟩
    split at equal <;> cases equal
    · refine ⟨List.isChain_cons.mpr ⟨fun _ _ => juxtaposed_operator _, complete⟩, ?_⟩
      rintro _ ⟨⟩
      cases previous <;> simp [juxtaposed, insertedStar, isOperand]
    · next noStar =>
      refine ⟨complete, ?_⟩
      rintro _ ⟨⟩
      simpa using noStar

theorem expressionItems_of_origin {frames : List Frame} {leaves : List NumberedToken}
    {token : AnnotatedToken} (origin : Origin frames leaves token) {run : List AnnotatedToken}
    (extracted : token.expression = some run) :
    ∃ tokens ⊆ leaves, expressionItems none tokens = .ok run := by
  cases origin with
  | expression among read =>
    cases extracted
    exact ⟨_, among, read⟩
  | name among isName modifiers =>
    rw [withModifiers_eq] at extracted
    cases extracted
  | block among inPath =>
    obtain ⟨frame, -, member⟩ := List.mem_flatMap.mp inPath
    simp only [List.mem_cons, List.not_mem_nil, or_false] at member
    rcases member with rfl | rfl <;> cases extracted
  | plain | type | inherited | literal => cases extracted

/-- An expression of a program is made of some of its tokens. -/
theorem expressionItems_of_reads {blocks : List Block} {tokens : List NumberedToken}
    {written : List AnnotatedToken} (reads : Reads blocks tokens written) {token : AnnotatedToken}
    (member : token ∈ written) {run : List AnnotatedToken}
    (extracted : token.expression = some run) :
    ∃ among ⊆ tokens, expressionItems none among = .ok run := by
  have ofStatement {frames : List Frame} {statement : Statement NumberedToken}
      (sound : Sound statement) (member : token ∈ statementTokens frames statement)
      {rest : List NumberedToken} :
      ∃ among ⊆ statement.leaves ++ rest, expressionItems none among = .ok run := by
    obtain ⟨among, inLeaves, read⟩ :=
      expressionItems_of_origin (origin_statement sound token member) extracted
    exact ⟨among, List.subset_append_of_subset_left _ inLeaves, read⟩
  have ofLater {before rest : List NumberedToken} {place : NumberedToken}
      (later : ∃ among ⊆ rest, expressionItems none among = .ok run) :
      ∃ among ⊆ before ++ place :: rest, expressionItems none among = .ok run := by
    obtain ⟨among, inRest, read⟩ := later
    exact ⟨among, fun _ member => by simp [inRest member], read⟩
  induction reads with
  | finish sound _ =>
    rcases List.mem_append.mp member with inside | isEnd
    · exact ofStatement sound inside
    · rw [List.mem_singleton.mp isEnd] at extracted
      cases extracted
  | newline sound _ _ inductionHypothesis | close sound _ _ inductionHypothesis =>
    rcases List.mem_append.mp member with inside | behind
    · exact ofStatement sound inside
    · rcases List.mem_cons.mp behind with isEnd | later
      · rw [isEnd] at extracted
        cases extracted
      · exact ofLater (inductionHypothesis later)
  | open_ _ _ _ inductionHypothesis =>
    rcases List.mem_cons.mp member with isBrace | later
    · rw [isBrace] at extracted
      cases extracted
    · exact ofLater (inductionHypothesis later)

end Annotations

open Annotations (annotate_eq_ok_iff expressionItems_of_reads ordinary_expressionItems
  complete_expressionItems NumberedToken)
open Expression (Apart Infix)

/-- Malformed expressions have no value, but for operands side by side: an extracted expression that
has a value is an infix expression if and only if no two of its operands are neighbours. -/
theorem extracted_infix_iff_apart {tokens : List Token} {written : List AnnotatedToken}
    (annotated : annotate tokens = .ok written)
    (spelled : ∀ token ∈ tokens, token.kind.isOperator = true →
      token.literal ≠ Expression.negationSymbol)
    {token : AnnotatedToken} (member : token ∈ written) {run : List AnnotatedToken}
    (extracted : token.expression = some run) {verbosity : Nat} {root : Scope}
    {value : Option Value}
    (succeeds : (Expression.evaluate verbosity root run).outcome = .ok value) :
    (∃ tree, Infix .sum tree run) ↔ Apart run := by
  obtain ⟨among, inTokens, read⟩ :=
    expressionItems_of_reads (annotate_eq_ok_iff.mp annotated).2 member extracted
  have ordinary := ordinary_expressionItems (fun numbered inside =>
    spelled _ (NumberedToken.token_mem_of_mem (inTokens inside))) read
  exact Expression.infix_iff_apart (complete_expressionItems read).1 ordinary succeeds

/-- The product `2(3-1)`, with its multiplication sign left out; no text spells an operator like a
negation. -/
theorem extracted_infix_iff_apart_product :
    ∃ tokens written token run, Token.tokenize "x=2(3-1)" = .ok tokens ∧
      annotate tokens = .ok written ∧
      (∀ token ∈ tokens, token.kind.isOperator = true →
        token.literal ≠ Expression.negationSymbol) ∧
      token ∈ written ∧ token.expression = some run ∧
      (Expression.evaluate 0 {} run).outcome = .ok (some (.int 4)) ∧
      ((∃ tree, Infix .sum tree run) ↔ Apart run) := by
  let tokens : List Token := [⟨.identifier, "x", 1, 1⟩, ⟨.equals, "=", 1, 2⟩, ⟨.int, "2", 1, 3⟩,
    ⟨.leftParen, "(", 1, 4⟩, ⟨.int, "3", 1, 5⟩, ⟨.minus, "-", 1, 6⟩, ⟨.int, "1", 1, 7⟩,
    ⟨.rightParen, ")", 1, 8⟩, ⟨.endOfInput, "", 1, 9⟩]
  have read : Token.tokenize "x=2(3-1)" = .ok tokens := by
    have name : Lexeme.scan "x=2(3-1)".toList =
        some (.name, ['x'], ['=', '2', '(', '3', '-', '1', ')']) := rfl
    have equals : Lexeme.scan ['=', '2', '(', '3', '-', '1', ')'] =
        some (.symbol '=', ['='], ['2', '(', '3', '-', '1', ')']) := rfl
    have two : Lexeme.scan ['2', '(', '3', '-', '1', ')'] =
        some (.number, ['2'], ['(', '3', '-', '1', ')']) := rfl
    have left : Lexeme.scan ['(', '3', '-', '1', ')'] =
        some (.symbol '(', ['('], ['3', '-', '1', ')']) := rfl
    have three : Lexeme.scan ['3', '-', '1', ')'] = some (.number, ['3'], ['-', '1', ')']) := rfl
    have minus : Lexeme.scan ['-', '1', ')'] = some (.symbol '-', ['-'], ['1', ')']) := rfl
    have one : Lexeme.scan ['1', ')'] = some (.number, ['1'], [')']) := rfl
    have right : Lexeme.scan [')'] = some (.symbol ')', [')'], []) := rfl
    rw [Token.tokenize, Lexeme.cut_scanned name, Lexeme.cut_scanned equals, Lexeme.cut_scanned two,
      Lexeme.cut_scanned left, Lexeme.cut_scanned three, Lexeme.cut_scanned minus,
      Lexeme.cut_scanned one, Lexeme.cut_scanned right, Lexeme.cut_nil]
    rfl
  have extracts : ∃ written token run, annotate tokens = .ok written ∧ token ∈ written ∧
      token.expression = some run ∧
      (Expression.evaluate 0 {} run).outcome = .ok (some (.int 4)) :=
    ⟨_, _, _, rfl, List.mem_cons_of_mem _ (List.mem_cons_of_mem _ (List.mem_cons_self ..)), rfl, rfl⟩
  obtain ⟨written, token, run, annotated, member, extracted, succeeds⟩ := extracts
  have spelled := Annotations.ne_negation_of_tokenize read
  exact ⟨tokens, written, token, run, read, annotated, spelled, member, extracted, succeeds,
    extracted_infix_iff_apart annotated spelled member extracted succeeds⟩

/-- The text `x=1 2+` gives its variable the value 3, though its right-hand side is no infix
expression. -/
theorem extracted_sideBySide :
    ∃ written token run, annotateSource "x=1 2+" = .ok written ∧ token ∈ written ∧
      token.expression = some run ∧
      (Expression.evaluate 0 {} run).outcome = .ok (some (.int 3)) ∧
      ¬ ∃ tree, Infix .sum tree run := by
  let tokens : List Token := [⟨.identifier, "x", 1, 1⟩, ⟨.equals, "=", 1, 2⟩, ⟨.int, "1", 1, 3⟩,
    ⟨.int, "2", 1, 5⟩, ⟨.plus, "+", 1, 6⟩, ⟨.endOfInput, "", 1, 7⟩]
  have read : Token.tokenize "x=1 2+" = .ok tokens := by
    have name : Lexeme.scan "x=1 2+".toList = some (.name, ['x'], ['=', '1', ' ', '2', '+']) := rfl
    have equals : Lexeme.scan ['=', '1', ' ', '2', '+'] =
        some (.symbol '=', ['='], ['1', ' ', '2', '+']) := rfl
    have one : Lexeme.scan ['1', ' ', '2', '+'] = some (.number, ['1'], [' ', '2', '+']) := rfl
    have blank : Lexeme.scan [' ', '2', '+'] = some (.blanks, [' '], ['2', '+']) := rfl
    have two : Lexeme.scan ['2', '+'] = some (.number, ['2'], ['+']) := rfl
    have plus : Lexeme.scan ['+'] = some (.symbol '+', ['+'], []) := rfl
    rw [Token.tokenize, Lexeme.cut_scanned name, Lexeme.cut_scanned equals, Lexeme.cut_scanned one,
      Lexeme.cut_scanned blank, Lexeme.cut_scanned two, Lexeme.cut_scanned plus, Lexeme.cut_nil]
    rfl
  have extracts : ∃ written token run, annotate tokens = .ok written ∧ token ∈ written ∧
      token.expression = some run ∧
      (Expression.evaluate 0 {} run).outcome = .ok (some (.int 3)) ∧ ¬ Apart run :=
    ⟨_, _, _, rfl, List.mem_cons_of_mem _ (List.mem_cons_of_mem _ (List.mem_cons_self ..)), rfl, rfl,
      by simp [Apart, NumberedToken.inRole, Annotations.isOperand]⟩
  obtain ⟨written, token, run, annotated, member, extracted, succeeds, sideBySide⟩ := extracts
  refine ⟨written, token, run, ?_, member, extracted, succeeds, ?_⟩
  · rw [annotateSource, read]
    exact annotated
  · rintro ⟨tree, grammar⟩
    exact sideBySide (Expression.apart_of_infix grammar)

end ParaLang
