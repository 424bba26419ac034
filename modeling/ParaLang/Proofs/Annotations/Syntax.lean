import ParaLang.Proofs.Annotations.Lines
import ParaLang.Proofs.Decimal.Numerals

/-! # The language of annotation

Annotation accepts exactly the token lists whose lines are statements and headers of balanced
blocks, with integers in range and of not too many digits.  It refuses any other list with a
structural diagnostic, or for an integer whose digits are too many to be read.  The list may come
from anywhere: only its numbers have the shape that the lexer gives them, and its only end of input
is its last token. -/

namespace ParaLang.Annotations

open ParaLang.Decimal (IsNumeral IsDecimal numeral)
open ParaLang.Grammar

/-! ## The language -/

/-- A number has the shape that the lexer gives it. -/
def WellShaped (token : Token) : Prop :=
  (token.kind = .int → IsNumeral token.literal.toList) ∧
    (token.kind = .float → IsDecimal token.literal.toList)

/-- An integer with more digits than are read. -/
def IsOverlong (token : Token) : Prop :=
  token.kind = .int ∧ Decimal.maxDigits < token.literal.toList.length

/-- `name {-> name} -> [: TYPE]`. -/
def IsHeader (run : List Token) : Prop :=
  ∃ header : Header Token, header.WellKinded Token.kind ∧ header.leaves = run

/-- A statement of the grammar in which no name is both mutable and constant. -/
def IsStatement (run : List Token) : Prop :=
  ∃ statement : Statement Token, statement.WellKinded Token.kind ∧
    statement.Compatible Token.kind ∧ statement.leaves = run

/-- Each closing brace closes an open block, and none is open at the end. -/
def Balanced (depth : Nat) : List Token → Prop
  | [] => depth = 0
  | token :: rest =>
    if token.kind = .leftBrace then Balanced (depth + 1) rest
    else if token.kind = .rightBrace then 0 < depth ∧ Balanced (depth - 1) rest
    else Balanced depth rest

/-- The lines of a token list inside some open blocks are headers and statements. -/
structure Conforms (depth : Nat) (tokens : List Token) : Prop where
  headers : ∀ line ∈ lines [] tokens, line.boundary.kind = .leftBrace → IsHeader line.run
  statements : ∀ line ∈ lines [] tokens, line.boundary.kind ≠ .leftBrace → IsStatement line.run
  balanced : Balanced depth tokens

structure IsProgram (tokens : List Token) : Prop extends Conforms 0 tokens where
  integers : ∀ token ∈ tokens, token.kind = .int → numeral token.literal.toList ≤ 2147483647

/-- The only end of input is the last token. -/
def EndsOnce (tokens : List Token) : Prop :=
  ∃ before finish, tokens = before ++ [finish] ∧ finish.kind = .endOfInput ∧
    ∀ token ∈ before, token.kind ≠ .endOfInput

theorem cuts_iff {kind : TokenKind} : inLine kind = false ↔
    kind = .newline ∨ kind = .leftBrace ∨ kind = .rightBrace ∨ kind = .endOfInput := by
  cases kind <;> simp [inLine]

/-! ## Line by line -/

section Lines

variable {run later : List Token} {boundary : Token} {depth : Nat}

theorem EndsOnce.after (once : EndsOnce (run ++ boundary :: later))
    (goesOn : boundary.kind ≠ .endOfInput) : EndsOnce later := by
  obtain ⟨before, finish, split, isEnd, only⟩ := once
  rcases List.eq_nil_or_concat later with rfl | ⟨inner, last, rfl⟩
  · obtain ⟨-, same⟩ := List.append_inj' split rfl
    cases same
    exact absurd isEnd goesOn
  · rw [List.concat_eq_append, ← List.cons_append, ← List.append_assoc] at split
    obtain ⟨rfl, same⟩ := List.append_inj' split rfl
    cases same
    exact ⟨inner, finish, List.concat_eq_append, isEnd, fun token member =>
      only token (by simp [member])⟩

theorem EndsOnce.nothing_after (once : EndsOnce (run ++ boundary :: later))
    (isEnd : boundary.kind = .endOfInput) : later = [] := by
  obtain ⟨before, finish, split, -, only⟩ := once
  rcases List.eq_nil_or_concat later with rfl | ⟨inner, last, rfl⟩
  · rfl
  · rw [List.concat_eq_append, ← List.cons_append, ← List.append_assoc] at split
    obtain ⟨rfl, -⟩ := List.append_inj' split rfl
    exact absurd isEnd (only boundary (by simp))

theorem balanced_append (inside : ∀ token ∈ run, inLine token.kind = true) :
    Balanced depth (run ++ later) ↔ Balanced depth later := by
  induction run with
  | nil => rfl
  | cons token run inductionHypothesis =>
    have stays := inside token (by simp)
    have noLeft : token.kind ≠ .leftBrace := kind_ne_of_test stays rfl
    have noRight : token.kind ≠ .rightBrace := kind_ne_of_test stays rfl
    rw [List.cons_append, Balanced, if_neg noLeft, if_neg noRight]
    exact inductionHypothesis fun other member => inside other (by simp [member])

theorem balanced_cons : Balanced depth (boundary :: later) ↔
    (boundary.kind = .rightBrace → 0 < depth) ∧
      Balanced (if boundary.kind = .leftBrace then depth + 1
        else if boundary.kind = .rightBrace then depth - 1 else depth) later := by
  rw [Balanced]
  split_ifs with isLeft isRight
  · simp [isLeft]
  · simp [isRight]
  · simp [isRight]

/-- The lines of a list are its first one and those of the rest. -/
theorem conforms_iff (inside : ∀ token ∈ run, inLine token.kind = true)
    (cuts : inLine boundary.kind = false) :
    Conforms depth (run ++ boundary :: later) ↔
      (boundary.kind = .leftBrace → IsHeader run) ∧
      (boundary.kind ≠ .leftBrace → IsStatement run) ∧
      (boundary.kind = .rightBrace → 0 < depth) ∧
      Conforms (if boundary.kind = .leftBrace then depth + 1
        else if boundary.kind = .rightBrace then depth - 1 else depth) later := by
  have split := lines_append inside cuts [] later
  constructor
  · rintro ⟨headers, statements, balanced⟩
    rw [split, List.forall_mem_cons] at headers statements
    rw [balanced_append inside, balanced_cons] at balanced
    exact ⟨headers.1, statements.1, balanced.1, headers.2, statements.2, balanced.2⟩
  · rintro ⟨header, statement, closes, headers, statements, balanced⟩
    refine ⟨?_, ?_, (balanced_append inside).mpr (balanced_cons.mpr ⟨closes, balanced⟩)⟩
    · rw [split]
      exact List.forall_mem_cons.mpr ⟨header, headers⟩
    · rw [split]
      exact List.forall_mem_cons.mpr ⟨statement, statements⟩

end Lines

/-! ## Programs and raw lines -/

theorem isStatement_of_sound {statement : Statement NumberedToken} (sound : Sound statement) :
    IsStatement (statement.leaves.map NumberedToken.token) :=
  ⟨statement.map NumberedToken.token, (Statement.wellKinded_map statement).mpr sound.kinds,
    (Statement.compatible_map statement).mpr sound.compatible, Statement.leaves_map _ _⟩

theorem noLiteral_of_cut {kind : TokenKind} (cuts : inLine kind = false) :
    kind.isLiteral = false := by
  cases kind <;> simp_all [inLine, TokenKind.isLiteral]

theorem noLiteral_of_header {header : Header NumberedToken}
    (kinds : header.WellKinded NumberedToken.kind) :
    ∀ token ∈ header.leaves, token.kind.isLiteral = false := by
  intro token member
  rcases header.kind_leaves kinds token member with isName | isArrow | isColon | isType
  · rw [isName]; rfl
  · rw [isArrow]; rfl
  · rw [isColon]; rfl
  · rw [isType]; rfl

theorem readable_line {run rest : List NumberedToken} {place : NumberedToken}
    (runReadable : Readable run) (cuts : inLine place.kind = false) (restReadable : Readable rest) :
    Readable (run ++ place :: rest) := by
  refine Readable.append.mpr ⟨runReadable, ?_⟩
  intro token member isLiteral
  rcases List.mem_cons.mp member with rfl | member
  · rw [noLiteral_of_cut cuts] at isLiteral
    cases isLiteral
  · exact restReadable token member isLiteral

/-- What annotation reads conforms. -/
theorem conforms_of_reads {blocks : List Block} {numbered : List NumberedToken}
    {written : List AnnotatedToken} (reads : Reads blocks numbered written)
    (once : EndsOnce (numbered.map NumberedToken.token)) :
    Conforms blocks.length (numbered.map NumberedToken.token) ∧ Readable numbered := by
  have inside {run : List NumberedToken} (kinds : ∀ token ∈ run, inLine token.kind = true) :
      ∀ token ∈ run.map NumberedToken.token, inLine token.kind = true :=
    List.forall_mem_map.mpr kinds
  induction reads with
  | @finish statement place rest sound isEnd =>
    have cuts : inLine place.token.kind = false := by
      rw [show place.token.kind = .endOfInput from isEnd]
      rfl
    have kind : place.token.kind = .endOfInput := isEnd
    rw [List.map_append, List.map_cons] at once ⊢
    have nothing := once.nothing_after isEnd
    obtain rfl := List.map_eq_nil_iff.mp nothing
    refine ⟨(conforms_iff (inside (Statement.inLine sound.kinds)) cuts).mpr
      ⟨by simp [kind], fun _ => isStatement_of_sound sound, by simp [kind], ?_⟩,
      readable_line sound.readable cuts (by simp [Readable])⟩
    simp only [kind, reduceCtorEq, if_false, List.map_nil]
    exact ⟨by simp [lines], by simp [lines], rfl⟩
  | @newline blocks statement place rest written sound isNewline _ inductionHypothesis =>
    have kind : place.token.kind = .newline := isNewline
    have cuts : inLine place.token.kind = false := by rw [kind]; rfl
    rw [List.map_append, List.map_cons] at once ⊢
    obtain ⟨later, laterReadable⟩ := inductionHypothesis (once.after (by simp [kind]))
    refine ⟨(conforms_iff (inside (Statement.inLine sound.kinds)) cuts).mpr
      ⟨by simp [kind], fun _ => isStatement_of_sound sound, by simp [kind], ?_⟩,
      readable_line sound.readable cuts laterReadable⟩
    simpa only [kind, reduceCtorEq, if_false] using later
  | @close block blocks statement place rest written sound isBrace _ inductionHypothesis =>
    have kind : place.token.kind = .rightBrace := isBrace
    have cuts : inLine place.token.kind = false := by rw [kind]; rfl
    rw [List.map_append, List.map_cons] at once ⊢
    obtain ⟨later, laterReadable⟩ := inductionHypothesis (once.after (by simp [kind]))
    refine ⟨(conforms_iff (inside (Statement.inLine sound.kinds)) cuts).mpr
      ⟨by simp [kind], fun _ => isStatement_of_sound sound, by simp, ?_⟩,
      readable_line sound.readable cuts laterReadable⟩
    simpa only [kind, reduceCtorEq, if_false, if_true, List.length_cons, Nat.add_sub_cancel]
      using later
  | @open_ blocks header place rest written kinds isBrace _ inductionHypothesis =>
    have kind : place.token.kind = .leftBrace := isBrace
    have cuts : inLine place.token.kind = false := by rw [kind]; rfl
    rw [List.map_append, List.map_cons] at once ⊢
    obtain ⟨later, laterReadable⟩ := inductionHypothesis (once.after (by simp [kind]))
    have isHeader : IsHeader (header.leaves.map NumberedToken.token) :=
      ⟨header.map NumberedToken.token, (Header.wellKinded_map header).mpr kinds,
        Header.leaves_map _ _⟩
    refine ⟨(conforms_iff (inside (Header.inLine kinds)) cuts).mpr
      ⟨fun _ => isHeader, by simp [kind], by simp [kind], ?_⟩,
      readable_line (readable_of_noLiteral (noLiteral_of_header kinds)) cuts laterReadable⟩
    simp only [kind, if_true]
    exact later

/-- What conforms is read. -/
theorem reads_of_conforms {blocks : List Block} {tokens : List Token} {count : Nat}
    (conforms : Conforms blocks.length tokens) (once : EndsOnce tokens)
    (readable : Readable (NumberedToken.ofTokens count tokens)) :
    ∃ written, Reads blocks (NumberedToken.ofTokens count tokens) written := by
  have cut : ∃ token ∈ tokens, inLine token.kind = false := by
    obtain ⟨before, finish, rfl, isEnd, -⟩ := once
    exact ⟨finish, by simp, by rw [isEnd]; rfl⟩
  obtain ⟨run, boundary, later, rfl, inside, cuts⟩ := exists_line cut
  have shorter : later.length < (run ++ boundary :: later).length := by
    simp
    omega
  obtain ⟨header, statement, closes, conformsLater⟩ := (conforms_iff inside cuts).mp conforms
  rw [NumberedToken.ofTokens_append, NumberedToken.ofTokens] at readable ⊢
  obtain ⟨runReadable, restReadable⟩ := Readable.append.mp readable
  have laterReadable : Readable (NumberedToken.ofTokens _ later) := fun token member =>
    restReadable token (List.mem_cons_of_mem _ member)
  by_cases isLeft : boundary.kind = .leftBrace
  · obtain ⟨rawHeader, kinds, leaves⟩ := header isLeft
    have image : (NumberedToken.ofTokens count run).map NumberedToken.token = rawHeader.leaves := by
      rw [NumberedToken.map_token_ofTokens, leaves]
    obtain ⟨lifted, liftedLeaves, rfl⟩ := Header.exists_of_leaves image
    rw [if_pos isLeft] at conformsLater
    have onLater : Conforms (blockOf lifted :: blocks).length later := conformsLater
    obtain ⟨written, reads⟩ := reads_of_conforms onLater (once.after (by simp [isLeft])) laterReadable
    rw [← liftedLeaves]
    have liftedKinds := (@Header.wellKinded_map _ _ NumberedToken.token Token.kind lifted).mp kinds
    exact ⟨_, .open_ liftedKinds isLeft reads⟩
  · obtain ⟨rawStatement, kinds, compatible, leaves⟩ := statement isLeft
    have image : (NumberedToken.ofTokens count run).map NumberedToken.token =
        rawStatement.leaves := by
      rw [NumberedToken.map_token_ofTokens, leaves]
    obtain ⟨lifted, liftedLeaves, rfl⟩ := Statement.exists_of_leaves image
    rw [← liftedLeaves] at runReadable ⊢
    have sound : Sound lifted :=
      ⟨(@Statement.wellKinded_map _ _ NumberedToken.token Token.kind lifted).mp kinds,
        (@Statement.compatible_map _ _ NumberedToken.token Token.kind lifted).mp compatible,
        runReadable⟩
    rw [if_neg isLeft] at conformsLater
    by_cases isEnd : boundary.kind = .endOfInput
    · obtain rfl := once.nothing_after isEnd
      rw [if_neg (by simp [isEnd])] at conformsLater
      have noBlock : blocks = [] := List.length_eq_zero_iff.mp conformsLater.balanced
      subst noBlock
      exact ⟨_, .finish sound isEnd⟩
    by_cases isRight : boundary.kind = .rightBrace
    · rw [if_pos isRight] at conformsLater
      cases blocks with
      | nil => exact absurd (closes isRight) (by simp)
      | cons block blocks =>
        obtain ⟨written, reads⟩ :=
          reads_of_conforms conformsLater (once.after isEnd) laterReadable
        exact ⟨_, .close sound isRight reads⟩
    · have isNewline : boundary.kind = .newline := by
        rcases cuts_iff.mp cuts with kind | kind | kind | kind
        · exact kind
        · exact absurd kind isLeft
        · exact absurd kind isRight
        · exact absurd kind isEnd
      rw [if_neg isRight] at conformsLater
      obtain ⟨written, reads⟩ := reads_of_conforms conformsLater (once.after isEnd) laterReadable
      exact ⟨_, .newline sound isNewline reads⟩
termination_by tokens.length

/-! ## Numbers -/

/-- A run of digits is read if it is not too long and its value is in range. -/
theorem literalValue_int {token : NumberedToken} (isInt : token.kind = .int)
    (isNumeral : IsNumeral token.literal.toList) :
    literalValue token =
      if token.literal.toList.length ≤ Decimal.maxDigits then
        if numeral token.literal.toList ≤ 2147483647 then
          .ok (.int (numeral token.literal.toList))
        else refuse (.literalOverflow token.literal) token
      else .error (.fault .malformedNumber) := by
  have read := Value.ofNumberLiteral_of_isNumeral isNumeral
  rw [literalValue, isInt]
  by_cases short : token.literal.toList.length ≤ Decimal.maxDigits
  · by_cases fits : numeral token.literal.toList ≤ 2147483647
    · simp only [read, if_pos short, if_pos fits]
    · simp only [read, if_pos short, if_neg fits]
  · simp only [read, if_neg short]

theorem literalValue_other {token : NumberedToken} (shaped : WellShaped token.token)
    (noInt : token.kind ≠ .int) : ∃ value, literalValue token = .ok value := by
  unfold literalValue
  split
  · rename_i isInt
    exact absurd isInt noInt
  · rename_i isFloat
    obtain ⟨value, read⟩ := Value.ofNumberLiteral_of_isDecimal
      (show IsDecimal token.literal.toList from shaped.2 isFloat)
    exact ⟨.float value, by rw [read]⟩
  all_goals exact ⟨_, rfl⟩

/-- A number of the right shape is read, unless it is an integer out of range or an overlong one. -/
theorem literalValue_shaped {token : NumberedToken} (shaped : WellShaped token.token) :
    (¬ IsOverlong token.token ∧ (∃ value, literalValue token = .ok value) ∧
        (token.kind = .int → numeral token.literal.toList ≤ 2147483647)) ∨
      (token.kind = .int ∧ 2147483647 < numeral token.literal.toList ∧
        literalValue token = refuse (.literalOverflow token.literal) token) ∨
      (IsOverlong token.token ∧ literalValue token = .error (.fault .malformedNumber)) := by
  by_cases isInt : token.kind = .int
  · rw [literalValue_int isInt (shaped.1 isInt)]
    by_cases short : token.literal.toList.length ≤ Decimal.maxDigits
    · rw [if_pos short]
      by_cases fits : numeral token.literal.toList ≤ 2147483647
      · rw [if_pos fits]
        exact .inl ⟨fun overlong => Nat.not_lt.mpr short overlong.2, ⟨_, rfl⟩, fun _ => fits⟩
      · rw [if_neg fits]
        exact .inr (.inl ⟨isInt, Nat.not_le.mp fits, rfl⟩)
    · rw [if_neg short]
      exact .inr (.inr ⟨⟨isInt, Nat.not_le.mp short⟩, rfl⟩)
  · exact .inl ⟨fun overlong => isInt overlong.1, literalValue_other shaped isInt,
      fun isInt' => absurd isInt' isInt⟩

/-- A literal of the right shape without a value is a number out of range or an overlong one. -/
theorem refusal_of_shaped {token : NumberedToken} (shaped : WellShaped token.token)
    {failure : Failure} (failed : literalValue token = .error failure) :
    IsRefusal (IsOverlong token.token) failure := by
  rcases literalValue_shaped shaped with ⟨-, ⟨value, read⟩, -⟩ | ⟨-, -, refused⟩ |
    ⟨overlong, refused⟩
  · rw [read] at failed
    cases failed
  · rw [refused] at failed
    cases failed
    rfl
  · rw [refused] at failed
    cases failed
    exact ⟨rfl, overlong⟩

/-- Tokens whose numbers have the right shape are read, or refused for their structure or for an
overlong integer. -/
theorem reads_or_refused_shaped {tokens : List Token}
    (last : tokens.getLast?.any (·.kind = .endOfInput) = true)
    (shaped : ∀ token ∈ tokens, WellShaped token) :
    (∃ written, annotate tokens = .ok written) ∨
      ∃ failure, annotate tokens = .error failure ∧
        IsRefusal (∃ token ∈ tokens, IsOverlong token) failure := by
  have bounded : Bounded (IsRefusal (∃ token ∈ tokens, IsOverlong token))
      (NumberedToken.ofTokens 0 tokens) := by
    refine ⟨ends_of_getLast last 0, fun token member failure failed => ?_⟩
    have among := NumberedToken.token_mem_of_mem member
    have refusal := refusal_of_shaped (shaped _ among) failed
    cases failure with
    | diagnostic diagnostic => exact refusal
    | fault fault => exact ⟨refusal.1, _, among, refusal.2⟩
  have framed : ({} : State).frames = framesOfBlocks [] := rfl
  rcases reads_or_refused isRefusal_of_isStructural atLineStart_initial framed bounded with
    ⟨failure, failed, refusal⟩ | ⟨written, reads⟩
  · refine .inr ⟨failure, ?_, refusal⟩
    rw [annotate, last, if_pos rfl]
    exact failed
  · exact .inl ⟨written, annotate_eq_ok_iff.mpr ⟨last, reads⟩⟩

/-! ## Acceptance -/

/-- Annotation accepts exactly the programs without overlong integers, and refuses anything else
for its structure or for an overlong integer. -/
theorem annotate_decides {before : List Token} {finish : Token}
    (isEnd : finish.kind = .endOfInput) (only : ∀ token ∈ before, token.kind ≠ .endOfInput)
    (shaped : ∀ token ∈ before, WellShaped token) :
    ((∃ written, annotate (before ++ [finish]) = .ok written) ↔
        IsProgram (before ++ [finish]) ∧ ∀ token ∈ before, ¬ IsOverlong token) ∧
      (¬ (IsProgram (before ++ [finish]) ∧ ∀ token ∈ before, ¬ IsOverlong token) →
        ∃ failure, annotate (before ++ [finish]) = .error failure ∧
          IsRefusal (∃ token ∈ before, IsOverlong token) failure) := by
  have once : EndsOnce (before ++ [finish]) := ⟨before, finish, rfl, isEnd, only⟩
  have last : (before ++ [finish]).getLast?.any (·.kind = .endOfInput) = true := by
    rw [List.getLast?_concat]
    simp [isEnd]
  have allShaped : ∀ token ∈ before ++ [finish], WellShaped token := by
    rw [List.forall_mem_append, List.forall_mem_singleton]
    exact ⟨shaped, by simp [isEnd], by simp [isEnd]⟩
  have numberedShaped : ∀ token ∈ NumberedToken.ofTokens 0 (before ++ [finish]),
      WellShaped token.token := fun token member =>
    allShaped _ (NumberedToken.token_mem_of_mem member)
  have overlong_iff : (∃ token ∈ before ++ [finish], IsOverlong token) ↔
      ∃ token ∈ before, IsOverlong token := by
    simp [or_and_right, exists_or, IsOverlong, isEnd]
  have accepted : (∃ written, annotate (before ++ [finish]) = .ok written) ↔
      IsProgram (before ++ [finish]) ∧ ∀ token ∈ before, ¬ IsOverlong token := by
    constructor
    · rintro ⟨written, annotated⟩
      have reads := (annotate_eq_ok_iff.mp annotated).2
      obtain ⟨conforms, readable⟩ := conforms_of_reads reads
        (by rw [NumberedToken.map_token_ofTokens]; exact once)
      have integers : ∀ token ∈ before ++ [finish], token.kind = .int →
          ¬ IsOverlong token ∧ numeral token.literal.toList ≤ 2147483647 := by
        intro token member isInt
        rw [← NumberedToken.map_token_ofTokens 0 (before ++ [finish])] at member
        obtain ⟨numbered, inside, rfl⟩ := List.mem_map.mp member
        have isLiteral : numbered.kind.isLiteral = true := by
          rw [show numbered.kind = .int from isInt]
          rfl
        obtain ⟨value, read⟩ := readable numbered inside isLiteral
        rcases literalValue_shaped (numberedShaped numbered inside) with ⟨short, -, fits⟩ |
          ⟨-, -, refused⟩ | ⟨-, refused⟩
        · exact ⟨short, fits isInt⟩
        · rw [refused] at read
          cases read
        · rw [refused] at read
          cases read
      rw [NumberedToken.map_token_ofTokens] at conforms
      refine ⟨{ conforms with integers := fun token member isInt => (integers token member isInt).2 },
        fun token member overlong => ?_⟩
      exact (integers token (List.mem_append_left _ member) overlong.1).1 overlong
    · rintro ⟨program, short⟩
      have readable : Readable (NumberedToken.ofTokens 0 (before ++ [finish])) := by
        intro token member isLiteral
        have among := NumberedToken.token_mem_of_mem member
        rcases literalValue_shaped (numberedShaped token member) with ⟨-, read, -⟩ |
          ⟨isInt, exceeds, -⟩ | ⟨overlong, -⟩
        · exact read
        · exact absurd (program.integers token.token among isInt) (Nat.not_le.mpr exceeds)
        · obtain ⟨other, inside, isOther⟩ := overlong_iff.mp ⟨_, among, overlong⟩
          exact absurd isOther (short other inside)
      obtain ⟨written, reads⟩ := @reads_of_conforms [] _ 0 program.toConforms once readable
      exact ⟨written, annotate_eq_ok_iff.mpr ⟨last, reads⟩⟩
  refine ⟨accepted, fun refused => ?_⟩
  rw [← overlong_iff]
  exact (reads_or_refused_shaped last allShaped).resolve_left (fun read => refused (accepted.mp read))

/-- A name may be assigned a literal. -/
theorem isStatement_literal {name equals literal : Token} (isName : name.kind = .identifier)
    (isEquals : equals.kind = .equals) (isLiteral : literal.kind.isLiteral = true) :
    IsStatement [name, equals, literal] := by
  refine ⟨⟨.name ⟨⟨[], name⟩, [], none⟩, [], some ⟨equals, .single (.literal literal), []⟩⟩,
    ?_, ?_, rfl⟩
  · refine ⟨⟨⟨by simp, isName⟩, by simp [Modifiers], by simp⟩, by simp, ?_⟩
    rintro _ ⟨⟩
    exact ⟨isEquals, isLiteral, by simp⟩
  · exact ⟨by simp [Segment.Compatible, Compatible, Definition.allModifiers], by simp⟩

/-- `g -> { x = 7 }` is a program. -/
theorem annotate_decides_block :
    let before : List Token := [⟨.identifier, "g", 1, 1⟩, ⟨.arrow, "->", 1, 3⟩,
      ⟨.leftBrace, "\x7b", 1, 6⟩, ⟨.identifier, "x", 1, 8⟩, ⟨.equals, "=", 1, 10⟩,
      ⟨.int, "7", 1, 12⟩, ⟨.rightBrace, "\x7d", 1, 14⟩]
    let finish : Token := ⟨.endOfInput, "", 1, 15⟩
    IsProgram (before ++ [finish]) ∧ (∀ token ∈ before, ¬ IsOverlong token) ∧
      ∃ written, annotate (before ++ [finish]) = .ok written := by
  intro before finish
  have header : IsHeader [⟨.identifier, "g", 1, 1⟩, ⟨.arrow, "->", 1, 3⟩] :=
    ⟨⟨⟨[], ⟨.identifier, "g", 1, 1⟩⟩, ⟨.arrow, "->", 1, 3⟩, none⟩,
      ⟨⟨by simp, rfl⟩, rfl, by simp⟩, rfl⟩
  have statement : IsStatement [⟨.identifier, "x", 1, 8⟩, ⟨.equals, "=", 1, 10⟩,
      ⟨.int, "7", 1, 12⟩] := isStatement_literal rfl rfl rfl
  have empty : IsStatement [] := ⟨⟨.empty, [], none⟩, ⟨trivial, by simp, by simp⟩,
    ⟨trivial, by simp⟩, rfl⟩
  have cut : lines [] (before ++ [finish]) =
      [⟨[⟨.identifier, "g", 1, 1⟩, ⟨.arrow, "->", 1, 3⟩], ⟨.leftBrace, "\x7b", 1, 6⟩⟩,
        ⟨[⟨.identifier, "x", 1, 8⟩, ⟨.equals, "=", 1, 10⟩, ⟨.int, "7", 1, 12⟩],
          ⟨.rightBrace, "\x7d", 1, 14⟩⟩, ⟨[], finish⟩] := rfl
  have program : IsProgram (before ++ [finish]) := by
    refine ⟨⟨?_, ?_, by simp [Balanced, before, finish]⟩, ?_⟩
    · simp [cut, header, finish]
    · simp [cut, statement, empty]
    · simp [before, finish]
      decide
  have short : ∀ token ∈ before, ¬ IsOverlong token := by
    simp [before, IsOverlong, Decimal.maxDigits]
  refine ⟨program, short, ((annotate_decides rfl ?_ ?_).1).mpr ⟨program, short⟩⟩
  · simp [before]
  · simp [before, WellShaped, IsNumeral]

/-! ## Programs with an overlong integer -/

/-- The tokens of `x = literal`. -/
def assignment (literal : String) : List Token :=
  [⟨.identifier, "x", 1, 1⟩, ⟨.equals, "=", 1, 3⟩, ⟨.int, literal, 1, 5⟩,
    ⟨.endOfInput, "", 1, 5 + literal.length⟩]

/-- An assignment is a program if its integer is in range. -/
theorem isProgram_assignment {literal : String} (fits : numeral literal.toList ≤ 2147483647) :
    IsProgram (assignment literal) := by
  have statement : IsStatement [⟨.identifier, "x", 1, 1⟩, ⟨.equals, "=", 1, 3⟩,
      ⟨.int, literal, 1, 5⟩] := isStatement_literal rfl rfl rfl
  have cut : lines [] (assignment literal) =
      [⟨[⟨.identifier, "x", 1, 1⟩, ⟨.equals, "=", 1, 3⟩, ⟨.int, literal, 1, 5⟩],
        ⟨.endOfInput, "", 1, 5 + literal.length⟩⟩] := rfl
  refine ⟨⟨?_, ?_, ?_⟩, ?_⟩
  · simp [cut]
  · simp [cut, statement]
  · simp [assignment, Balanced]
  · simp [assignment, fits]

/-- Its only end of input is the last token, and its integer is shaped like one. -/
theorem wellShaped_assignment {literal : String} (isNumeral : IsNumeral literal.toList) :
    ∃ before finish, assignment literal = before ++ [finish] ∧ finish.kind = .endOfInput ∧
      ∀ token ∈ before, token.kind ≠ .endOfInput ∧ WellShaped token :=
  ⟨(assignment literal).dropLast, _, rfl, rfl, by simp [assignment, WellShaped, isNumeral]⟩

/-- It is not annotated if its integer is overlong. -/
theorem annotate_assignment_overlong {literal : String} (isNumeral : IsNumeral literal.toList)
    (long : Decimal.maxDigits < literal.toList.length) :
    annotate (assignment literal) = .error (.fault .malformedNumber) := by
  have unread : literalValue ⟨⟨.int, literal, 1, 5⟩, 3⟩ = .error (.fault .malformedNumber) :=
    (@literalValue_int ⟨⟨.int, literal, 1, 5⟩, 3⟩ rfl isNumeral).trans
      (if_neg (Nat.not_le.mpr long))
  rw [annotate, assignment, if_pos (by simp)]
  refine (walk_step (by decide) (rfl : step _ _ _ _ = .ok (_, 0))).trans ?_
  refine (walk_step (by decide) (rfl : step _ _ _ _ = .ok (_, 0))).trans ?_
  change walk _ _ 0 (⟨⟨.int, literal, 1, 5⟩, 3⟩ :: _) = _
  rw [walk, if_neg (by rintro ⟨⟩), step_literal rfl, readLiteral_fresh, valueToken, unread]
  · rfl
  · exact ⟨rfl, by rintro _ ⟨⟩; rfl, rfl⟩

/-- The number seven behind as many zeros as an integer may have digits. -/
def paddedSeven : String :=
  String.ofList (List.replicate Decimal.maxDigits '0' ++ ['7'])

theorem numeral_paddedSeven : numeral paddedSeven.toList = 7 := by
  rw [paddedSeven, String.toList_ofList, Decimal.numeral_zeros_append]
  rfl

theorem isNumeral_paddedSeven : IsNumeral paddedSeven.toList := by
  rw [paddedSeven, String.toList_ofList]
  refine ⟨by simp, fun character member => ?_⟩
  rcases List.mem_append.mp member with zero | seven
  · rw [List.eq_of_mem_replicate zero]
    rfl
  · rw [List.mem_singleton.mp seven]
    rfl

theorem length_paddedSeven : Decimal.maxDigits < paddedSeven.toList.length := by
  rw [paddedSeven, String.toList_ofList, List.length_append, List.length_replicate]
  exact Nat.lt_succ_self _

/-- A program whose only integer is in range, but has too many digits to be read. -/
theorem annotate_overlong :
    (∃ before finish, assignment paddedSeven = before ++ [finish] ∧ finish.kind = .endOfInput ∧
      ∀ token ∈ before, token.kind ≠ .endOfInput ∧ WellShaped token) ∧
    IsProgram (assignment paddedSeven) ∧
      annotate (assignment paddedSeven) = .error (.fault .malformedNumber) := by
  have fits : numeral paddedSeven.toList ≤ 2147483647 := by
    rw [numeral_paddedSeven]
    decide
  exact ⟨wellShaped_assignment isNumeral_paddedSeven, isProgram_assignment fits,
    annotate_assignment_overlong isNumeral_paddedSeven length_paddedSeven⟩

end ParaLang.Annotations
