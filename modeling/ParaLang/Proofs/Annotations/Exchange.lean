import ParaLang.Proofs.Annotations.Assignments
import ParaLang.Proofs.Annotations.Seams
import ParaLang.Proofs.Annotations.Shape

/-! # Programs with exchanged statements

Outside of all blocks what is written for a statement does not depend on what is around it.  So two
neighbouring assignments can be exchanged in an accepted program, and what is written for them is
exchanged with them. -/

namespace ParaLang.Annotations

open ParaLang.Grammar
open AnnotatedToken (essence)

/-! ## Lines -/

section Lines

variable {blocks : List Block} {run rest : List NumberedToken} {place : NumberedToken}
  {written : List AnnotatedToken}

/-- The first of two boundaries that end a line is the same. -/
theorem line_unique {other more : List NumberedToken} {ending : NumberedToken}
    (inside : ∀ token ∈ run, inLine token.kind = true) (cuts : inLine place.kind = false)
    (otherInside : ∀ token ∈ other, inLine token.kind = true)
    (otherCuts : inLine ending.kind = false)
    (same : run ++ place :: rest = other ++ ending :: more) :
    run = other ∧ place = ending ∧ rest = more := by
  have negated {tokens : List NumberedToken} (inside : ∀ token ∈ tokens, inLine token.kind = true) :
      ∀ token ∈ tokens, (!inLine token.kind) = false := by
    simpa using inside
  exact @cut_unique (!inLine ·) _ _ _ _ _ _ (negated inside) (negated otherInside)
    (by simp [cuts]) (by simp [otherCuts]) same

/-- A line that ends with a line end is a statement, and the rest is read by itself. -/
theorem reads_newline (reads : Reads blocks (run ++ place :: rest) written)
    (inside : ∀ token ∈ run, inLine token.kind = true) (isNewline : place.kind = .newline) :
    ∃ statement later, Sound statement ∧ statement.leaves = run ∧
      written =
        statementTokens (framesOfBlocks blocks) statement ++ place.inRole .newline :: later ∧
      Reads blocks rest later := by
  have cuts : inLine place.kind = false := by rw [isNewline]; rfl
  generalize split : run ++ place :: rest = tokens at reads
  cases reads with
  | newline sound isEnd reads =>
    obtain ⟨rfl, rfl, rfl⟩ := line_unique inside cuts (Statement.inLine sound.kinds)
      (cuts_iff.mpr (.inl isEnd)) split
    exact ⟨_, _, sound, rfl, rfl, reads⟩
  | finish sound isEnd =>
    obtain ⟨rfl, rfl, rfl⟩ := line_unique inside cuts (Statement.inLine sound.kinds)
      (cuts_iff.mpr (.inr (.inr (.inr isEnd)))) split
    rw [isNewline] at isEnd
    cases isEnd
  | close sound isBrace _ =>
    obtain ⟨rfl, rfl, rfl⟩ := line_unique inside cuts (Statement.inLine sound.kinds)
      (cuts_iff.mpr (.inr (.inr (.inl isBrace)))) split
    rw [isNewline] at isBrace
    cases isBrace
  | open_ kinds isBrace _ =>
    obtain ⟨rfl, rfl, rfl⟩ := line_unique inside cuts (Header.inLine kinds)
      (cuts_iff.mpr (.inr (.inl isBrace))) split
    rw [isNewline] at isBrace
    cases isBrace

/-- So is a line at the end of the input. -/
theorem reads_finish (reads : Reads [] (run ++ place :: rest) written)
    (inside : ∀ token ∈ run, inLine token.kind = true) (isEnd : place.kind = .endOfInput) :
    ∃ statement, Sound statement ∧ statement.leaves = run ∧
      written = statementTokens [] statement ++ [place.inRole .endOfInput] := by
  have cuts : inLine place.kind = false := by rw [isEnd]; rfl
  generalize split : run ++ place :: rest = tokens at reads
  cases reads with
  | finish sound isOther =>
    obtain ⟨rfl, rfl, rfl⟩ := line_unique inside cuts (Statement.inLine sound.kinds)
      (cuts_iff.mpr (.inr (.inr (.inr isOther)))) split
    exact ⟨_, sound, rfl, rfl⟩
  | newline sound isOther _ =>
    obtain ⟨rfl, rfl, rfl⟩ := line_unique inside cuts (Statement.inLine sound.kinds)
      (cuts_iff.mpr (.inl isOther)) split
    rw [isEnd] at isOther
    cases isOther
  | open_ kinds isOther _ =>
    obtain ⟨rfl, rfl, rfl⟩ := line_unique inside cuts (Header.inLine kinds)
      (cuts_iff.mpr (.inr (.inl isOther))) split
    rw [isEnd] at isOther
    cases isOther

/-- The statement before a line end or the end of the input can be replaced by any other. -/
theorem reads_replaced (reads : Reads [] (run ++ place :: rest) written)
    (inside : ∀ token ∈ run, inLine token.kind = true)
    (ends : place.kind = .newline ∨ place.kind = .endOfInput) :
    ∃ statement ending later, Sound statement ∧ statement.leaves = run ∧
      ending.role.isBoundary = true ∧ written = statementTokens [] statement ++ ending :: later ∧
      ∀ other : Statement NumberedToken, Sound other →
        Reads [] (other.leaves ++ place :: rest) (statementTokens [] other ++ ending :: later) := by
  rcases ends with isNewline | isEnd
  · obtain ⟨statement, later, sound, leaves, rfl, readsLater⟩ :=
      reads_newline reads inside isNewline
    exact ⟨statement, _, later, sound, leaves, rfl, rfl, fun _ otherSound =>
      .newline otherSound isNewline readsLater⟩
  · obtain ⟨statement, sound, leaves, rfl⟩ := reads_finish reads inside isEnd
    exact ⟨statement, _, [], sound, leaves, rfl, rfl, fun _ otherSound => .finish otherSound isEnd⟩

end Lines

/-! ## What comes before -/

/-- The number of blocks that the tokens open. -/
def opened (tokens : List NumberedToken) : Nat :=
  tokens.countP (·.kind == .leftBrace)

def closed (tokens : List NumberedToken) : Nat :=
  tokens.countP (·.kind == .rightBrace)

/-- Inside some open blocks `front` is written for the tokens before the start of a statement
inside the inner blocks, whatever follows there. -/
structure Prelude (blocks inner : List Block) (before : List NumberedToken)
    (front : List AnnotatedToken) : Prop where
  goesOn : ∀ rest later, Reads inner rest later → Reads blocks (before ++ rest) (front ++ later)
  divides : ∀ later, statements (front ++ later) = statements front ++ statements later
  depth : inner.length + closed before = blocks.length + opened before

section Prelude

variable {blocks middle inner : List Block} {before run : List NumberedToken}
  {front : List AnnotatedToken} {statement : Statement NumberedToken} {place : NumberedToken}

theorem Prelude.nil (blocks : List Block) : Prelude blocks blocks [] [] where
  goesOn _ _ reads := reads
  divides _ := rfl
  depth := rfl

theorem Prelude.append {later : List NumberedToken} {back : List AnnotatedToken}
    (first : Prelude blocks middle before front) (second : Prelude middle inner later back) :
    Prelude blocks inner (before ++ later) (front ++ back) where
  goesOn rest written reads := by
    simpa using first.goesOn _ _ (second.goesOn rest written reads)
  divides written := by
    rw [List.append_assoc, first.divides, first.divides, second.divides, List.append_assoc]
  depth := by
    have outer := first.depth
    have further := second.depth
    simp only [opened, closed, List.countP_append] at outer further ⊢
    omega

theorem divides_line {tokens : List AnnotatedToken} {ending : AnnotatedToken}
    (inner : ∀ token ∈ tokens, token.role.isBoundary = false)
    (boundary : ending.role.isBoundary = true) (later : List AnnotatedToken) :
    statements (tokens ++ [ending] ++ later) =
      statements (tokens ++ [ending]) ++ statements later := by
  rw [List.append_assoc, List.singleton_append, statements_append inner boundary,
    statements_append inner boundary]
  split <;> rfl

/-- Tokens within a line open and close no blocks. -/
theorem depth_line (inside : ∀ token ∈ run, inLine token.kind = true) (place : NumberedToken) :
    opened (run ++ [place]) = (if place.kind = .leftBrace then 1 else 0) ∧
      closed (run ++ [place]) = (if place.kind = .rightBrace then 1 else 0) := by
  have none (brace : TokenKind) (cuts : inLine brace = false) :
      run.countP (·.kind == brace) = 0 := by
    refine List.countP_eq_zero.mpr fun token member isBrace => ?_
    have stays := inside token member
    rw [eq_of_beq isBrace, cuts] at stays
    cases stays
  simp only [opened, closed, List.countP_append, none .leftBrace rfl,
    none .rightBrace rfl, List.countP_singleton, beq_iff_eq, Nat.zero_add, and_self]

theorem prelude_newline (sound : Sound statement) (isNewline : place.kind = .newline) :
    Prelude blocks blocks (statement.leaves ++ [place])
      (statementTokens (framesOfBlocks blocks) statement ++ [place.inRole .newline]) where
  goesOn rest later reads := by simpa using Reads.newline sound isNewline reads
  divides := divides_line (sided_statement sound _).inner rfl
  depth := by
    obtain ⟨opens, closes⟩ := depth_line (Statement.inLine sound.kinds) place
    simp [opens, closes, isNewline]

theorem prelude_close {block : Block} (sound : Sound statement)
    (isBrace : place.kind = .rightBrace) :
    Prelude (block :: blocks) blocks (statement.leaves ++ [place])
      (statementTokens (framesOfBlocks (block :: blocks)) statement ++
        [place.inRole .blockClose]) where
  goesOn rest later reads := by simpa using @Reads.close block _ _ _ _ _ sound isBrace reads
  divides := divides_line (sided_statement sound _).inner rfl
  depth := by
    obtain ⟨opens, closes⟩ := depth_line (Statement.inLine sound.kinds) place
    simp [opens, closes, isBrace]

theorem prelude_open {header : Header NumberedToken}
    (kinds : header.WellKinded NumberedToken.kind) (isBrace : place.kind = .leftBrace) :
    Prelude blocks (blockOf header :: blocks) (header.leaves ++ [place])
      [blockToken (blockOf header) place] where
  goesOn rest later reads := by simpa using Reads.open_ kinds isBrace reads
  divides := @divides_line [] _ (by simp) rfl
  depth := by
    obtain ⟨opens, closes⟩ := depth_line (Header.inLine kinds) place
    simp [opens, closes, isBrace]

/-- What is written for a program is divided at the start of a statement. -/
def Parts (blocks : List Block) (before rest : List NumberedToken)
    (written : List AnnotatedToken) : Prop :=
  ∃ inner front later, written = front ++ later ∧ Prelude blocks inner before front ∧
    Reads inner rest later

theorem Parts.behind {lead output : List AnnotatedToken} {between rest : List NumberedToken}
    (first : Prelude blocks middle (run ++ [place]) lead)
    (parts : Parts middle between rest output) :
    Parts blocks (run ++ place :: between) rest (lead ++ output) := by
  obtain ⟨inner, front, later, rfl, prelude, reads⟩ := parts
  rw [List.append_cons]
  exact ⟨inner, lead ++ front, later, by simp, first.append prelude, reads⟩

/-- A line whose end is the division ends the part in front of it, and any other line leaves the
division to what follows. -/
theorem Parts.of_line {lead output : List AnnotatedToken} {last : NumberedToken}
    {later rest : List NumberedToken} (inside : ∀ token ∈ run, inLine token.kind = true)
    (cuts : inLine last.kind = false) (split : run ++ place :: later = before ++ last :: rest)
    (first : Prelude blocks middle (run ++ [place]) lead) (reads : Reads middle later output)
    (only : ∀ token ∈ before ++ [last], token.kind ≠ .endOfInput)
    (goesOn : ∀ between, later = between ++ last :: rest →
      (∀ token ∈ between ++ [last], token.kind ≠ .endOfInput) →
        Parts middle (between ++ [last]) rest output) :
    Parts blocks (before ++ [last]) rest (lead ++ output) := by
  rcases boundary_cases inside cuts split with ⟨rfl, rfl, rfl⟩ | ⟨between, rfl, rfl⟩
  · exact ⟨middle, lead, output, rfl, first, reads⟩
  · have parts := goesOn between rfl fun token member => only token (by simp_all)
    simpa using parts.behind first

/-- A program is divided behind any token that ends a line. -/
theorem parts_behind {tokens rest : List NumberedToken} {last : NumberedToken}
    {written : List AnnotatedToken} (reads : Reads blocks tokens written)
    (split : tokens = before ++ last :: rest) (cuts : inLine last.kind = false)
    (only : ∀ token ∈ before ++ [last], token.kind ≠ .endOfInput) :
    Parts blocks (before ++ [last]) rest written := by
  -- the token ends the first line or a line behind it
  induction reads generalizing before with
  | @finish statement place rest sound isEnd =>
    rcases boundary_cases (Statement.inLine sound.kinds) cuts split with
      ⟨rfl, rfl, rfl⟩ | ⟨between, rfl, -⟩
    · exact absurd isEnd (only last (by simp))
    · exact absurd isEnd (only place (by simp))
  | @newline blocks statement place rest output sound isNewline reads inductionHypothesis =>
    rw [List.append_cons (statementTokens _ statement)]
    exact .of_line (Statement.inLine sound.kinds) cuts split (prelude_newline sound isNewline) reads
      only fun _ => inductionHypothesis
  | @close block blocks statement place rest output sound isBrace reads inductionHypothesis =>
    rw [List.append_cons (statementTokens _ statement)]
    exact .of_line (Statement.inLine sound.kinds) cuts split (prelude_close sound isBrace) reads
      only fun _ => inductionHypothesis
  | @open_ blocks header place rest output kinds isBrace reads inductionHypothesis =>
    exact .of_line (Header.inLine kinds) cuts split (prelude_open kinds isBrace) reads only
      fun _ => inductionHypothesis

/-- A program is divided at the start of any of its statements. -/
theorem parts_of_reads {rest : List NumberedToken} {written : List AnnotatedToken}
    (reads : Reads blocks (before ++ rest) written)
    (starts : ∀ last ∈ before.getLast?, inLine last.kind = false)
    (only : ∀ token ∈ before, token.kind ≠ .endOfInput) : Parts blocks before rest written := by
  rcases List.eq_nil_or_concat' before with rfl | ⟨lead, last, rfl⟩
  · exact ⟨blocks, [], written, rfl, .nil blocks, reads⟩
  · exact parts_behind reads (by simp) (starts last (by simp)) only

end Prelude

/-! ## Exchanged statements -/

/-- What stands before and after some statements outside of all blocks. -/
structure Surrounds (before after : List Token) : Prop where
  starts : ∀ last ∈ before.getLast?, inLine last.kind = false
  only : ∀ token ∈ before, token.kind ≠ .endOfInput
  outside : before.countP (·.kind == .leftBrace) ≤ before.countP (·.kind == .rightBrace)
  ends : ∃ ending rest, after = ending :: rest ∧
    (ending.kind = .newline ∨ ending.kind = .endOfInput)

theorem map_kind_unplaced {tokens others : List Token}
    (same : others.map Token.unplaced = tokens.map Token.unplaced) :
    others.map Token.kind = tokens.map Token.kind := by
  simpa [Function.comp_def, Token.unplaced] using congrArg (List.map Token.kind) same

/-- What surrounds some statements is a matter of the kinds of its tokens. -/
theorem Surrounds.elsewhere {before after earlier later : List Token}
    (surrounds : Surrounds before after)
    (sameBefore : earlier.map Token.unplaced = before.map Token.unplaced)
    (sameAfter : later.map Token.unplaced = after.map Token.unplaced) :
    Surrounds earlier later := by
  have kinds := map_kind_unplaced sameBefore
  have count (kind : TokenKind) :
      earlier.countP (·.kind == kind) = before.countP (·.kind == kind) := by
    have counted := congrArg (List.countP (· == kind)) kinds
    simpa only [List.countP_map, Function.comp_def] using counted
  refine ⟨fun last isLast => ?_, fun token member => ?_, ?_, ?_⟩
  · have isKind : (before.map Token.kind).getLast? = some last.kind := by
      rw [← kinds, List.getLast?_map, isLast]
      rfl
    rw [List.getLast?_map] at isKind
    obtain ⟨other, isOther, sameKind⟩ := Option.map_eq_some_iff.mp isKind
    exact sameKind ▸ surrounds.starts other isOther
  · have among : token.kind ∈ before.map Token.kind := by
      rw [← kinds]
      exact List.mem_map_of_mem member
    obtain ⟨other, inBefore, sameKind⟩ := List.mem_map.mp among
    exact sameKind ▸ surrounds.only other inBefore
  · rw [count, count]
    exact surrounds.outside
  · obtain ⟨ending, rest, rfl, ends⟩ := surrounds.ends
    obtain ⟨other, more, rfl, sameEnding, -⟩ := List.map_eq_cons_iff.mp sameAfter
    have sameKind : other.unplaced.kind = ending.unplaced.kind := congrArg Token.kind sameEnding
    exact ⟨other, more, rfl, (show other.kind = ending.kind from sameKind) ▸ ends⟩

/-- How what is written for a program and for the one with two assignments exchanged is related:
up to places the statements of the other one are those of the program in the other order. -/
inductive Exchanges (first second : PlainAssignment Token) (written other : List AnnotatedToken) :
    Prop where
  | intro {one two : PlainAssignment NumberedToken} {front tail : List (List AnnotatedToken)}
      {turned : List AnnotatedToken}
      (isFirst : one.map NumberedToken.token = first)
      (isSecond : two.map NumberedToken.token = second)
      (inOrder : statements written = front ++ statementTokens [] one.statement ::
        statementTokens [] two.statement :: tail)
      (exchanged : statements turned = front ++ statementTokens [] two.statement ::
        statementTokens [] one.statement :: tail)
      (same : other.map essence = turned.map essence) : Exchanges first second written other

theorem countP_ofTokens (count : Nat) (tokens : List Token) (kind : TokenKind) :
    (NumberedToken.ofTokens count tokens).countP (·.kind == kind) =
      tokens.countP (·.kind == kind) := by
  conv_rhs => rw [← NumberedToken.map_token_ofTokens count tokens, List.countP_map]
  rfl

/-- Outside of all blocks no block is open. -/
theorem Prelude.outside {before after : List Token} {inner : List Block}
    {front : List AnnotatedToken} (surrounds : Surrounds before after)
    (prelude : Prelude [] inner (NumberedToken.ofTokens 0 before) front) : inner = [] := by
  have depth := prelude.depth
  have outside := surrounds.outside
  simp only [opened, closed, countP_ofTokens, List.length_nil] at depth
  exact List.eq_nil_of_length_eq_zero (by omega)

/-- What is written for an assignment is not empty and stands within a statement. -/
theorem statements_assignment {assignment : PlainAssignment NumberedToken}
    (sound : Sound assignment.statement) {ending : AnnotatedToken}
    (boundary : ending.role.isBoundary = true) (rest : List AnnotatedToken) :
    statements (statementTokens [] assignment.statement ++ ending :: rest) =
      statementTokens [] assignment.statement :: statements rest := by
  rw [statements_append (sided_statement sound []).inner boundary, if_neg]
  simp [PlainAssignment.statement, statementTokens, bindingTokens]

/-- An assignment over the tokens of a line with their numbers. -/
structure Numbers (assignment : PlainAssignment Token) (run : List NumberedToken)
    (numbered : PlainAssignment NumberedToken) : Prop where
  tokens : numbered.map NumberedToken.token = assignment
  leaves : numbered.leaves = run
  inLine : ∀ leaf ∈ numbered.leaves, inLine leaf.kind = true
  accepted : ∀ statement, Sound statement → statement.leaves = numbered.leaves →
    Sound numbered.statement

theorem exists_numbers {assignment : PlainAssignment Token}
    (kinds : assignment.WellKinded Token.kind) (count : Nat) :
    ∃ numbered, Numbers assignment (NumberedToken.ofTokens count assignment.leaves) numbered := by
  obtain ⟨numbered, leaves, rfl⟩ := @PlainAssignment.exists_of_leaves _ _ NumberedToken.token
    assignment (NumberedToken.ofTokens count assignment.leaves) (by simp)
  have inRun {leaf : NumberedToken} (member : leaf ∈ numbered.leaves) :
      leaf.token ∈ (numbered.map NumberedToken.token).leaves :=
    NumberedToken.token_mem_of_mem (leaves ▸ member)
  have numberedKinds : numbered.WellKinded NumberedToken.kind :=
    (@PlainAssignment.wellKinded_map _ _ _ NumberedToken.token Token.kind).mp kinds
  exact ⟨numbered, rfl, leaves, fun leaf member => assignment_inLine kinds _ (inRun member),
    fun statement sound same => sound_assignment_of_leaves numberedKinds sound same
      fun leaf member => assignment_noQuestion kinds _ (inRun member)⟩

section Exchange

variable {first second : PlainAssignment Token} {run secondRun rest : List NumberedToken}
  {one two : PlainAssignment NumberedToken} {newline ending : NumberedToken}
  {written : List AnnotatedToken}

/-- Two lines that are read as assignments are also read in the other order. -/
theorem reads_exchanged (numbers : Numbers first run one)
    (secondNumbers : Numbers second secondRun two)
    (isNewline : newline.kind = .newline)
    (ends : ending.kind = .newline ∨ ending.kind = .endOfInput)
    (reads : Reads [] (run ++ newline :: (secondRun ++ ending :: rest)) written) :
    ∃ finish tail, Sound one.statement ∧ Sound two.statement ∧ finish.role.isBoundary = true ∧
      Reads [] (run ++ newline :: (secondRun ++ ending :: rest))
        (statementTokens [] one.statement ++ newline.inRole .newline ::
          (statementTokens [] two.statement ++ finish :: tail)) ∧
      Reads [] (secondRun ++ newline :: (run ++ ending :: rest))
        (statementTokens [] two.statement ++ newline.inRole .newline ::
          (statementTokens [] one.statement ++ finish :: tail)) := by
  obtain ⟨-, rfl, inside, accepted⟩ := numbers
  obtain ⟨-, rfl, secondInside, secondAccepted⟩ := secondNumbers
  obtain ⟨statement, later, sound, leaves, rfl, readsLater⟩ :=
    reads_newline reads inside isNewline
  obtain ⟨other, finish, tail, otherSound, otherLeaves, boundary, rfl, replaced⟩ :=
    reads_replaced readsLater secondInside ends
  have firstSound := accepted statement sound leaves
  have secondSound := secondAccepted other otherSound otherLeaves
  have inOrder := Reads.newline firstSound isNewline (replaced _ secondSound)
  have exchanged := Reads.newline secondSound isNewline (replaced _ firstSound)
  simp only [PlainAssignment.leaves_statement] at inOrder exchanged
  exact ⟨finish, tail, firstSound, secondSound, boundary, inOrder, exchanged⟩

end Exchange

/-- The numbers of two lines and what is around them. -/
theorem exists_numbered_lines (before run secondRun rest : List Token) {lineEnd : Token}
    (isNewline : lineEnd.kind = .newline) (ending : Token) :
    ∃ newline finish later, newline.token = lineEnd ∧ finish.token = ending ∧
      later.map NumberedToken.token = rest ∧
      NumberedToken.ofTokens 0 (before ++ run ++ lineEnd :: (secondRun ++ ending :: rest)) =
        NumberedToken.ofTokens 0 before ++
          (NumberedToken.ofTokens (NumberedToken.countAfter 0 before) run ++ newline ::
            (NumberedToken.ofTokens 0 secondRun ++ finish :: later)) := by
  rw [List.append_assoc, NumberedToken.ofTokens_append, NumberedToken.ofTokens_append _ run,
    NumberedToken.ofTokens, if_pos isNewline, NumberedToken.ofTokens_append _ secondRun,
    NumberedToken.ofTokens]
  exact ⟨_, _, _, rfl, rfl, NumberedToken.map_token_ofTokens _ _, rfl⟩

/-- Two assignments in neighbouring lines can be exchanged in an accepted program. -/
theorem exists_exchanged {before after others : List Token}
    {first second : PlainAssignment Token} {lineEnd : Token} {written : List AnnotatedToken}
    (surrounds : Surrounds before after) (firstKinds : first.WellKinded Token.kind)
    (secondKinds : second.WellKinded Token.kind) (isNewline : lineEnd.kind = .newline)
    (annotated : annotate (before ++ first.leaves ++ lineEnd :: (second.leaves ++ after)) =
      .ok written)
    (same : others.map Token.unplaced =
      (before ++ second.leaves ++ lineEnd :: (first.leaves ++ after)).map Token.unplaced) :
    ∃ other, annotate others = .ok other ∧ Exchanges first second written other := by
  obtain ⟨endsInput, reads⟩ := annotate_eq_ok_iff.mp annotated
  obtain ⟨ending, rest, rfl, ends⟩ := surrounds.ends
  obtain ⟨one, numbers⟩ := exists_numbers firstKinds (NumberedToken.countAfter 0 before)
  obtain ⟨two, secondNumbers⟩ := exists_numbers secondKinds 0
  obtain ⟨newline, finish, later, rfl, rfl, rfl, split⟩ :=
    exists_numbered_lines before first.leaves second.leaves rest isNewline ending
  rw [split] at reads
  have starts : ∀ last ∈ (NumberedToken.ofTokens 0 before).getLast?,
      inLine last.kind = false := by
    intro last isLast
    refine surrounds.starts last.token ?_
    rw [← NumberedToken.map_token_ofTokens 0 before, List.getLast?_map, isLast]
    rfl
  obtain ⟨inner, front, _, -, prelude, readsLines⟩ := parts_of_reads reads starts
    fun token member => surrounds.only _ (NumberedToken.token_mem_of_mem member)
  obtain rfl := prelude.outside surrounds
  obtain ⟨boundary, tail, firstSound, secondSound, isBoundary, inOrder, exchanged⟩ :=
    reads_exchanged numbers secondNumbers isNewline ends readsLines
  have annotatedInOrder := annotate_eq_ok_iff.mpr ⟨endsInput, split ▸ prelude.goesOn _ _ inOrder⟩
  obtain rfl := Except.ok.inj (annotated.symm.trans annotatedInOrder)
  obtain ⟨other, readsOther, essence⟩ := @exists_reads_elsewhere _ _
    (NumberedToken.ofTokens 0 others) _ (prelude.goesOn _ _ exchanged) (by
      have unplaced (token : NumberedToken) : token.unplaced = token.token.unplaced := rfl
      simp [map_unplaced_ofTokens, same, unplaced, Function.comp_def])
  have endsOther : (before ++ second.leaves ++ newline.token :: (first.leaves ++ finish.token ::
      later.map NumberedToken.token)).getLast?.any (·.kind = .endOfInput) = true := by
    simpa [List.getLast?_append, List.getLast?_cons] using endsInput
  have divided {assignment next : PlainAssignment NumberedToken}
      (sound : Sound assignment.statement) (nextSound : Sound next.statement) : statements (front ++
        (statementTokens [] assignment.statement ++ newline.inRole .newline ::
          (statementTokens [] next.statement ++ boundary :: tail))) =
      statements front ++ statementTokens [] assignment.statement ::
        statementTokens [] next.statement :: statements tail := by
    rw [prelude.divides, statements_assignment sound rfl,
      statements_assignment nextSound isBoundary]
  exact ⟨other, annotate_eq_ok_iff.mpr ⟨endsWith_of_unplaced same endsOther, readsOther⟩,
    .intro numbers.tokens secondNumbers.tokens (divided firstSound secondSound)
      (divided secondSound firstSound) essence⟩

end ParaLang.Annotations
