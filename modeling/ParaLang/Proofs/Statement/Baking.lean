import ParaLang.Proofs.Interpretation.Lines
import ParaLang.Proofs.Statement.Replacing
import ParaLang.Proofs.Statement.RoundTrip

/-! # What the baked form writes

The baked form writes the line of a statement in which the reference behind the `=`, or each name
of the expression there, gives way to the display of a value. -/

namespace ParaLang

open Token (Written)

namespace Statement

open Interpretation (Idle)

/-! ## Values in statements -/

/-- The path behind the `=` of a statement; empty if there is none. -/
def reference (statement : List AnnotatedToken) : List String :=
  pathAt ((statement.dropWhile (·.role != .assign)).drop 1)

/-- The scopes of the variable that a statement defines. -/
def groups (statement : List AnnotatedToken) : List String :=
  ((definition? statement).map fun (_, path) => path.dropLast).getD []

/-- Each value that the baked form writes in a statement is one that can stand there. -/
def pastes (tree : Scope) (statement : List AnnotatedToken) : Bool :=
  (reference? tree (groups statement) (reference statement)).all (·.value.pastes) &&
    statement.all fun token => token.expression.all (Expression.Pastes tree none)

/-! ## Texts of tokens -/

variable {tree : Scope} {groups : List String} {run rest : List AnnotatedToken}

theorem bakeToken_eq {token : AnnotatedToken} (noExpression : token.role ≠ .expression) :
    bakeToken tree token = renderToken token := by
  rw [bakeToken, if_neg noExpression]

/-- Tokens away from the `=` are written as the flat form writes them. -/
theorem bakeTokens_idle (idle : ∀ token ∈ run, Idle token) {texts : List String}
    (rendered : run.mapM renderToken = .ok texts) (rest : List AnnotatedToken) :
    bakeTokens tree groups false 0 (run ++ rest) =
      (texts ++ ·) <$> bakeTokens tree groups false 0 rest := by
  induction run generalizing texts with
  | nil =>
    cases rendered
    simp
  | cons token run inductionHypothesis =>
    obtain ⟨⟨noAssign, noExpression, -⟩, idleRun⟩ := List.forall_mem_cons.mp idle
    rw [List.mapM_cons] at rendered
    obtain ⟨text, ofToken, rendered⟩ := Result.bind_eq_ok_iff.mp rendered
    obtain ⟨later, ofRun, equal⟩ := Result.bind_eq_ok_iff.mp rendered
    cases equal
    have flag : (token.role == .assign) = false := by simpa using noAssign
    simp only [List.cons_append, bakeTokens, Bool.false_and, Bool.false_eq_true, if_false,
      bakeToken_eq noExpression, ofToken, Result.ok_bind, flag, inductionHypothesis idleRun ofRun]
    cases bakeTokens tree groups false 0 rest <;> rfl

/-- So is a token behind the `=` that starts no reference. -/
theorem bakeTokens_word {token : AnnotatedToken} {text : String} (noSegment : token.isSegment = false)
    (noAssign : (token.role == .assign) = false) (baked : bakeToken tree token = .ok text)
    (rest : List AnnotatedToken) :
    bakeTokens tree groups true 0 (token :: rest) =
      ([text] ++ ·) <$> bakeTokens tree groups false 0 rest := by
  simp only [bakeTokens, noSegment, Bool.and_false, Bool.false_eq_true, if_false, baked,
    Result.ok_bind, noAssign]
  cases bakeTokens tree groups false 0 rest <;> rfl

/-- The tokens of a reference that has been replaced are passed over. -/
theorem bakeTokens_skip (run rest : List AnnotatedToken) :
    bakeTokens tree groups false run.length (run ++ rest) =
      bakeTokens tree groups false 0 rest := by
  induction run with
  | nil => rfl
  | cons token run inductionHypothesis => exact inductionHypothesis

/-- What the baked form writes for a statement is the line of some tokens. -/
theorem exists_line {statement : List AnnotatedToken} {texts : List String} {tokens : List Token}
    (baked : bakeTokens tree (Statement.groups statement) false 0 statement = .ok texts)
    (written : Written tokens (String.join texts).toList) (nonempty : tokens ≠ []) :
    ∃ line text, bake tree statement = .ok line ∧ Written tokens text ∧
      line.toList = text.dropLast := by
  obtain ⟨before, last, split, noBlank⟩ := written.text_eq nonempty
  refine ⟨Text.trimEnd (String.join texts), _, ?_, written,
    AnnotatedToken.trimEnd_eq split noBlank⟩
  change (bakeTokens tree (Statement.groups statement) false 0 statement >>= _) = _
  rw [baked]
  rfl

end Statement

/-! ## Right-hand sides -/

namespace Annotations

open Grammar
open AnnotatedToken (Presentable)
open Expression (Pastes)
open Statement (reference? bakeTokens)
open Interpretation (pathAt_reference separated_inspected statementTokens_unbound
  statementTokens_bound segments_noAssign idle_segments)

variable {tree : Scope} {groups : List String}

/-- For a right-hand side the baked form writes another one, which is read as some tokens. -/
structure Rewrites (tree : Scope) (groups : List String) (value baked : RightHandSide NumberedToken)
    (tokens : List Token) (texts : List String) : Prop where
  bakes : Bakes tree groups value baked
  legible : Legible baked tokens
  written : Written tokens (String.join texts).toList
  inFront : ∀ rest, Separated rest → bakeTokens tree groups true 0 (valueTokens [] value ++ rest) =
    (texts ++ ·) <$> bakeTokens tree groups false 0 rest

theorem exists_rewrites_literal {token : NumberedToken}
    (legible : Legible (.single (.literal token)) (readLiteralToken token).shownTokens) :
    ∃ texts, Rewrites tree groups (.single (.literal token)) (.single (.literal token))
      (readLiteralToken token).shownTokens texts := by
  obtain ⟨text, rendered, written⟩ :=
    AnnotatedToken.written_shownTokens (List.forall_mem_singleton.mp legible.presentable)
  have noExpression : (readLiteralToken token).role ≠ .expression := by simp [readLiteralToken]
  have baked : Statement.bakeToken tree (readLiteralToken token) = .ok text := by
    rw [Statement.bakeToken_eq noExpression, rendered]
  exact ⟨[text], .literal, legible, by simpa using written,
    fun rest _ => Statement.bakeTokens_word rfl rfl baked rest⟩

theorem exists_rewrites_reference {path : Path NumberedToken}
    (readable : Readable (RightHandSide.single (.reference path)).leaves)
    (kinds : (RightHandSide.single (.reference path)).WellKinded NumberedToken.kind)
    (presentable : ∀ token ∈ valueTokens [] (.single (.reference path)), token.Presentable)
    (pastes : ∀ found, reference? tree groups (path.map NumberedToken.token).names = some found →
      found.value.pastes = true) :
    ∃ baked tokens texts, Rewrites tree groups (.single (.reference path)) baked tokens texts := by
  obtain ⟨first, others, tokens, segment, length⟩ := Interpretation.exists_reference path
  have names {rest : List AnnotatedToken} (separated : Separated rest) :
      pathAt (first :: (others ++ rest)) = (path.map NumberedToken.token).names := by
    rw [← List.cons_append, ← tokens, pathAt_append separated, pathAt_reference]
  have ofPath : valueTokens [] (.single (.reference path)) = first :: others := tokens
  cases isFound : reference? tree groups (path.map NumberedToken.token).names with
  | none =>
    obtain ⟨texts, rendered, written⟩ := AnnotatedToken.written_statement presentable
    refine ⟨_, _, texts, .unknown isFound, ⟨kinds, readable, presentable, rfl⟩, written,
      fun rest separated => ?_⟩
    rw [← @Statement.bakeTokens_idle tree groups _
      (Interpretation.idle_operand (.reference path)) _ rendered rest, ofPath, tokens]
    simp only [List.cons_append, bakeTokens, names separated, isFound, segment, Bool.and_true,
      if_true, Bool.false_eq_true, if_false]
  | some found =>
    obtain ⟨baked, denotes, legible⟩ := exists_denotes (pastes found isFound)
    refine ⟨baked, _, [found.value.display ++ " "], .reference isFound (pastes found isFound) denotes,
      legible, ?_, fun rest separated => ?_⟩
    · simpa using Value.written_display (pastes found isFound)
    · rw [ofPath]
      simp only [List.cons_append, bakeTokens, names separated, isFound, segment, Bool.and_true,
        if_true, ← length, Statement.bakeTokens_skip]
      cases bakeTokens tree groups false 0 rest <;> rfl

theorem exists_rewrites_expression {first : NumberedToken} {more : List NumberedToken}
    {items : List AnnotatedToken} (read : expressionItems none (first :: more) = .ok items)
    (kinds : (RightHandSide.expression first more).WellKinded NumberedToken.kind)
    (spelled : ∀ item ∈ items, (item.ofKind item.kind).WellSpelled)
    (pastes : Pastes tree none items = true) :
    ∃ baked tokens texts, Rewrites tree groups (.expression first more) baked tokens texts := by
  obtain ⟨baked, bakes, legible⟩ := @exists_pasted tree groups _ _ kinds _ read spelled pastes
  have values := Expression.pastes_of_mem pastes
  refine ⟨baked, _, [" ".intercalate (items.map (Statement.bakeItem tree)) ++ " "], bakes, legible,
    ?_, fun rest _ => ?_⟩
  · simpa using Token.written_parts (items_ne_nil read) fun item member =>
      Expression.written_bakeItem (spelled item member) (values item member)
  · rw [valueTokens_expression read]
    exact @Statement.bakeTokens_word tree groups (extractedToken first more items) _ rfl rfl rfl rest

variable {value : RightHandSide NumberedToken}

/-- For every right-hand side the baked form writes another one. -/
theorem exists_rewrites (kinds : value.WellKinded NumberedToken.kind)
    (readable : Readable value.leaves)
    (presentable : ∀ token ∈ valueTokens [] value, token.Presentable)
    (pastesReference : ∀ path, value = .single (.reference path) → ∀ found,
      reference? tree groups (path.map NumberedToken.token).names = some found →
        found.value.pastes = true)
    (pastesNames : ∀ token ∈ valueTokens [] value, ∀ items, token.expression = some items →
      Pastes tree none items = true) :
    ∃ baked tokens texts, Rewrites tree groups value baked tokens texts := by
  cases value with
  | single operand =>
    cases operand with
    | literal token =>
      exact ⟨_, _, exists_rewrites_literal ⟨kinds, readable, presentable, List.append_nil _⟩⟩
    | reference path =>
      exact exists_rewrites_reference readable kinds presentable (pastesReference path rfl)
  | expression first more =>
    obtain ⟨items, read⟩ := expressionItems_readable none kinds.1 readable
    rw [valueTokens_expression read, List.forall_mem_singleton] at presentable pastesNames
    obtain ⟨others, isItems, -, spelled⟩ := presentable
    cases isItems
    exact exists_rewrites_expression read kinds spelled (pastesNames items rfl)

/-! ## Statements -/

/-- A statement and the one that the baked form writes for it. -/
inductive BakesStatement (tree : Scope) (groups : List String) :
    Statement NumberedToken → Statement NumberedToken → Prop where
  | unbound {first : Segment NumberedToken} {more : List (NumberedToken × Segment NumberedToken)} :
      BakesStatement tree groups ⟨first, more, none⟩ ⟨first, more, none⟩
  | bound {first : Segment NumberedToken} {more : List (NumberedToken × Segment NumberedToken)}
      {equals : NumberedToken} {value baked : RightHandSide NumberedToken}
      {inspected : List (NumberedToken × Option (Operand NumberedToken))}
      (bakes : Bakes tree groups value baked) :
      BakesStatement tree groups ⟨first, more, some ⟨equals, value, inspected⟩⟩
        ⟨first, more, some ⟨equals, baked, inspected⟩⟩

section Statements

variable {first : Segment NumberedToken} {more : List (NumberedToken × Segment NumberedToken)}
  {equals : NumberedToken} {value : RightHandSide NumberedToken}
  {inspected : List (NumberedToken × Option (Operand NumberedToken))}

theorem reference_bound :
    Statement.reference (statementTokens [] ⟨first, more, some ⟨equals, value, inspected⟩⟩) =
      pathAt (valueTokens [] value ++ inspectedTokens [] inspected) := by
  rw [statementTokens_bound, Statement.reference,
    List.dropWhile_append_of_pos (segments_noAssign first more),
    List.dropWhile_cons_of_neg (by simp), List.drop_one, List.tail_cons]

theorem pastes_reference {path : Path NumberedToken} {found : Variable}
    (pastes : Statement.pastes tree (statementTokens []
      ⟨first, more, some ⟨equals, .single (.reference path), inspected⟩⟩) = true)
    (isFound : reference? tree (Statement.groups (statementTokens []
      ⟨first, more, some ⟨equals, .single (.reference path), inspected⟩⟩))
      (path.map NumberedToken.token).names = some found) : found.value.pastes = true := by
  have ofReference := (Bool.and_eq_true_iff.mp pastes).1
  rw [reference_bound, valueTokens, pathAt_append (separated_inspected inspected),
    pathAt_reference, isFound] at ofReference
  exact ofReference

/-- With another right-hand side that is read from some text a statement can be shown as before. -/
theorem showable_replaced {baked : RightHandSide NumberedToken} {tokens : List Token}
    (sound : Sound ⟨first, more, some ⟨equals, value, inspected⟩⟩)
    (showable : Showable (statementTokens [] ⟨first, more, some ⟨equals, value, inspected⟩⟩))
    (legible : Legible baked tokens) :
    Showable (statementTokens [] ⟨first, more, some ⟨equals, baked, inspected⟩⟩) := by
  obtain ⟨kinds, compatible, readable⟩ := sound
  obtain ⟨isEquals, -, inspectedKinds⟩ := kinds.2.2 _ rfl
  obtain ⟨segmentsReadable, bindingReadable⟩ := Readable.append.mp readable
  have inspectedReadable := ((Readable.binding isEquals).mp bindingReadable).2
  have bakedReadable : Readable (Binding.leaves ⟨equals, baked, inspected⟩) :=
    (@Readable.binding ⟨equals, baked, inspected⟩ isEquals).mpr
      ⟨legible.readable, inspectedReadable⟩
  have bakedSound : Sound ⟨first, more, some ⟨equals, baked, inspected⟩⟩ := by
    refine ⟨⟨kinds.1, kinds.2.1, ?_⟩, compatible,
      Readable.append.mpr ⟨segmentsReadable, bakedReadable⟩⟩
    rintro other ⟨⟩
    exact ⟨isEquals, legible.kinds, inspectedKinds⟩
  have presentable := showable.presentable
  rw [statementTokens_bound] at presentable
  obtain ⟨ofSegments, ofBinding⟩ := List.forall_mem_append.mp presentable
  obtain ⟨ofEquals, ofBehind⟩ := List.forall_mem_cons.mp ofBinding
  refine ⟨by simp [statementTokens_bound], ?_, [], _, bakedSound, rfl⟩
  rw [statementTokens_bound]
  exact List.forall_mem_append.mpr ⟨ofSegments, List.forall_mem_cons.mpr ⟨ofEquals,
    List.forall_mem_append.mpr ⟨legible.presentable, (List.forall_mem_append.mp ofBehind).2⟩⟩⟩

/-- The text of a statement consists of the texts of its parts. -/
theorem exists_bakeTokens_bound {baked : RightHandSide NumberedToken} {tokens : List Token}
    {valueTexts : List String} (rewrites : Rewrites tree groups value baked tokens valueTexts)
    (presentable : ∀ token ∈ statementTokens [] ⟨first, more, some ⟨equals, value, inspected⟩⟩,
      token.Presentable) :
    ∃ texts, bakeTokens tree groups false 0
        (statementTokens [] ⟨first, more, some ⟨equals, value, inspected⟩⟩) = .ok texts ∧
      Written (lineTokens (statementTokens [] ⟨first, more, some ⟨equals, baked, inspected⟩⟩))
        (String.join texts).toList := by
  rw [statementTokens_bound] at presentable
  obtain ⟨ofSegments, ofBinding⟩ := List.forall_mem_append.mp presentable
  obtain ⟨ofEquals, ofBehind⟩ := List.forall_mem_cons.mp ofBinding
  obtain ⟨segmentTexts, segmentsRendered, segmentsWritten⟩ :=
    AnnotatedToken.written_statement ofSegments
  obtain ⟨equalsText, equalsRendered, equalsWritten⟩ := AnnotatedToken.written_shownTokens ofEquals
  obtain ⟨inspectedTexts, inspectedRendered, inspectedWritten⟩ :=
    AnnotatedToken.written_statement (List.forall_mem_append.mp ofBehind).2
  refine ⟨segmentTexts ++ equalsText :: (valueTexts ++ inspectedTexts), ?_, ?_⟩
  · have behind := @Statement.bakeTokens_idle tree groups _
      (Interpretation.idle_inspected inspected) _ inspectedRendered []
    have isAssign : ((equals.inRole .assign).role == .assign) = true := rfl
    have noExpression : (equals.inRole .assign).role ≠ .expression := by simp
    simp only [List.append_nil, bakeTokens, Result.map_ok] at behind
    rw [statementTokens_bound, Statement.bakeTokens_idle (idle_segments first more) segmentsRendered]
    simp only [bakeTokens, Bool.false_and, Bool.false_eq_true, if_false,
      Statement.bakeToken_eq noExpression, equalsRendered, isAssign,
      rewrites.inFront _ (separated_inspected inspected), behind, Result.ok_bind, Result.map_ok]
    rfl
  · have joined := segmentsWritten.append (equalsWritten.append
      (rewrites.written.append inspectedWritten))
    rw [statementTokens_bound]
    simp only [lineTokens, List.flatMap_append, List.flatMap_cons, rewrites.legible.shown]
    simpa [String.join_append] using joined

/-- For a statement the baked form writes the line of another one. -/
theorem exists_bakedStatement {statement : Statement NumberedToken} (sound : Sound statement)
    (showable : Showable (statementTokens [] statement))
    (pastes : Statement.pastes tree (statementTokens [] statement) = true) :
    ∃ baked, BakesStatement tree (Statement.groups (statementTokens [] statement)) statement baked ∧
      Showable (statementTokens [] baked) ∧
      ∃ line text, Statement.bake tree (statementTokens [] statement) = .ok line ∧
        Written (lineTokens (statementTokens [] baked)) text ∧ line.toList = text.dropLast := by
  have presentable := showable.presentable
  obtain ⟨first, more, binding⟩ := statement
  cases binding with
  | none =>
    have idle := idle_segments first more
    rw [← statementTokens_unbound] at idle
    obtain ⟨texts, rendered, written⟩ := AnnotatedToken.written_statement presentable
    have baked := @Statement.bakeTokens_idle tree
      (Statement.groups (statementTokens [] ⟨first, more, none⟩)) _ idle _ rendered []
    simp only [List.append_nil, bakeTokens, Result.map_ok] at baked
    exact ⟨_, .unbound, showable, Statement.exists_line baked written showable.lineTokens_ne_nil⟩
  | some binding =>
    obtain ⟨equals, value, inspected⟩ := binding
    obtain ⟨isEquals, valueKinds, -⟩ := sound.kinds.2.2 _ rfl
    have valueReadable :=
      ((Readable.binding isEquals).mp (Readable.append.mp sound.readable).2).1
    have ofValue : ∀ token ∈ valueTokens [] value,
        token ∈ statementTokens [] ⟨first, more, some ⟨equals, value, inspected⟩⟩ := by
      intro token member
      simp [statementTokens_bound, member]
    have pastesNames := List.all_eq_true.mp (Bool.and_eq_true_iff.mp pastes).2
    obtain ⟨baked, tokens, valueTexts, rewrites⟩ := @exists_rewrites tree
      (Statement.groups (statementTokens [] ⟨first, more, some ⟨equals, value, inspected⟩⟩)) value
      valueKinds valueReadable
      (fun token member => presentable token (ofValue token member))
      (fun path isPath found isFound => by
        subst isPath
        exact pastes_reference pastes isFound)
      (fun token member items isItems => by
        have ofToken := pastesNames token (ofValue token member)
        rwa [isItems] at ofToken)
    obtain ⟨texts, isTexts, written⟩ := exists_bakeTokens_bound rewrites presentable
    have bakedShowable := showable_replaced sound showable rewrites.legible
    exact ⟨_, .bound rewrites.bakes, bakedShowable,
      Statement.exists_line isTexts written bakedShowable.lineTokens_ne_nil⟩

end Statements

end Annotations

end ParaLang
