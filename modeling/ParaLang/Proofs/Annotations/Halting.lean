import Mathlib.Logic.Relation
import ParaLang.Proofs.Annotations.Cursor
import ParaLang.Proofs.Annotations.Syntax

/-! # Annotation stops inside its input

Every turn of the loop takes the cursor to a later token of the list, if the list ends in an end of
input.  So the loop stops.  It ends in a stream with one end of input, in a diagnostic about the
structure of the program, or at a number that is none, and it never looks outside the list. -/

namespace ParaLang.Annotations

open ParaLang.Grammar

/-! ## Tokens read ahead -/

section Ahead

variable {state other : State} {passed rest : List NumberedToken} {place : NumberedToken}
  {count : Nat}

theorem typeClause_within {type read : Option String}
    (clause : typeClause state type rest = .ok (other, read, count)) : count < rest.length := by
  induction rest generalizing state type count with
  | nil => cases clause
  | cons place rest inductionHypothesis =>
    unfold typeClause at clause
    split at clause
    · split at clause
      · cases clause
      · simp only [Result.bind_eq_ok_iff] at clause
        obtain ⟨⟨modified, type, length⟩, further, clause⟩ := clause
        cases clause
        simpa using inductionHypothesis further
    split at clause
    · simp only [Result.bind_eq_ok_iff] at clause
      obtain ⟨modified, -, ⟨later, type, length⟩, further, clause⟩ := clause
      cases clause
      simpa using inductionHypothesis further
    · cases clause
      simp

theorem readName_within (read : readName state passed place rest = .ok (other, count)) :
    count ≤ rest.length - 1 := by
  have named (read : (do return (writeName state place (← nameRole state rest), 0)) =
      Except.ok (other, count)) : count ≤ rest.length - 1 := by
    obtain ⟨role, -, same⟩ := Result.bind_eq_ok_iff.mp read
    cases same
    exact Nat.zero_le _
  simp only [readName] at read
  split at read
  · cases read
  split at read
  · cases read
  split at read
  · obtain ⟨header, measured, read⟩ := Result.bind_eq_ok_iff.mp read
    cases header with
    | none => exact named read
    | some length =>
      cases read
      have bounds := Cursor.headerLength?_bounds measured
      simp only [List.length_cons] at bounds
      omega
  · exact named read

theorem readColon_within (read : readColon state place rest = .ok (other, count)) :
    count < rest.length := by
  unfold readColon at read
  split at read
  · simp only [Result.bind_eq_ok_iff] at read
    obtain ⟨⟨modified, type, length⟩, clause, read⟩ := read
    cases type with
    | none => cases read
    | some type =>
      cases read
      exact typeClause_within clause
  · cases read

theorem readAssignment_within (read : readAssignment state place rest = .ok (other, count)) :
    count < rest.length := by
  unfold readAssignment at read
  split at read
  · cases read
  simp only [Result.bind_eq_ok_iff] at read
  obtain ⟨run, value, read⟩ := read
  obtain ⟨terminator, later, rfl⟩ := Cursor.split_of_rightHandSide value
  cases run with
  | nil => cases read
  | cons first more =>
    simp only at read
    split at read
    · simp only [Result.bind_eq_ok_iff] at read
      obtain ⟨token, -, read⟩ := read
      cases read
      simp
    · cases read
      simp

/-- What a step reads ahead ends in front of the last token. -/
theorem step_within (stepped : step state passed place rest = .ok (other, count)) :
    count ≤ rest.length - 1 := by
  have single {read : Result State} (ends : (do return (← read, 0)) = Except.ok (other, count)) :
      count ≤ rest.length - 1 := by
    rw [(single_eq_ok_iff.mp ends).2]
    exact Nat.zero_le _
  unfold step at stepped
  split at stepped
  case h_1 | h_14 =>
    cases stepped
    exact Nat.zero_le _
  case h_2 => exact readName_within stepped
  case h_4 => exact Nat.le_sub_one_of_lt (readColon_within stepped)
  case h_8 => exact Nat.le_sub_one_of_lt (readAssignment_within stepped)
  case h_17 => cases stepped
  all_goals exact single stepped

end Ahead

/-! ## The loop -/

namespace Cursor

/-- A turn ends at an end of input and handles any other token as the walk does. -/
theorem turn_eq (state : State) (place : NumberedToken) (passed rest : List NumberedToken) :
    turn (passed.reverse ++ place :: rest) state passed.length =
      if place.kind = .endOfInput then .inl <$> finish state place
      else .inr <$> Prod.map id (passed.length + 1 + ·) <$> step state passed place rest := by
  rw [turn, tokenAt_here, Result.ok_bind, handle_eq]
  rfl

/-- What a turn that goes on does: it handles a token that does not end the input. -/
theorem turn_step {tokens : List NumberedToken} {state other : State} {cursor next : Nat}
    (turned : turn tokens state cursor = .ok (.inr (other, next))) :
    ∃ passed place rest count, tokens = passed.reverse ++ place :: rest ∧ passed.length = cursor ∧
      place.kind ≠ .endOfInput ∧ step state passed place rest = .ok (other, count) ∧
      next = cursor + 1 + count := by
  simp only [turn, Result.bind_eq_ok_iff] at turned
  obtain ⟨place, read, turned⟩ := turned
  have inside := lt_of_tokenAt read
  -- the cursor cuts the list at the token that it reads
  have atCursor : tokens = (tokens.take cursor).reverse.reverse ++
      tokens[cursor] :: tokens.drop (cursor + 1) := by
    rw [List.reverse_reverse, List.getElem_cons_drop, List.take_append_drop]
  have long : (tokens.take cursor).reverse.length = cursor := by
    simp
    omega
  have here : place = tokens[cursor] := by
    rw [tokenAt_nat, List.getElem?_eq_getElem inside] at read
    exact (Except.ok.inj read).symm
  split at turned
  · simp only [Result.bind_eq_ok_iff] at turned
    obtain ⟨written, -, turned⟩ := turned
    cases turned
  · rename_i goesOn
    obtain ⟨handled, read, same⟩ := Result.bind_eq_ok_iff.mp turned
    cases same
    have handles := @handle_eq (tokens.take cursor).reverse (tokens.drop (cursor + 1)) state place
    rw [here, ← atCursor, long, ← here, read] at handles
    cases stepped : step state (tokens.take cursor).reverse place (tokens.drop (cursor + 1)) with
    | error failure =>
      rw [stepped] at handles
      cases handles
    | ok result =>
      rw [stepped] at handles
      cases handles
      exact ⟨_, place, _, result.2, here ▸ atCursor, long, goesOn, stepped, rfl⟩

/-- A turn takes the cursor to a later token, if the last token ends the input. -/
theorem turn_forward {tokens : List NumberedToken}
    (ends : tokens.getLast?.any (·.kind = .endOfInput) = true) {state other : State}
    {cursor next : Nat} (turned : turn tokens state cursor = .ok (.inr (other, next))) :
    cursor < next ∧ next < tokens.length := by
  obtain ⟨passed, place, rest, count, rfl, rfl, goesOn, stepped, rfl⟩ := turn_step turned
  have more : rest ≠ [] := by
    rintro rfl
    simp [goesOn] at ends
  have within := step_within stepped
  have inside := List.length_pos_iff.mpr more
  simp
  omega

/-- The loop from a cursor on. -/
def loop (tokens : List NumberedToken) (state : State) (cursor : Nat) :
    Result (List AnnotatedToken) :=
  match _turned : turn tokens state cursor with
  | .error failure => .error failure
  | .ok (.inl written) => .ok written
  | .ok (.inr (state, next)) => loop tokens state next
termination_by tokens.length - cursor
decreasing_by
  obtain ⟨passed, place, rest, count, rfl, rfl, -, -, rfl⟩ := turn_step _turned
  simp
  omega

/-- The loop does what the walk does. -/
theorem loop_eq (state : State) (passed rest : List NumberedToken) :
    loop (passed.reverse ++ rest) state passed.length = walk state passed 0 rest := by
  cases rest with
  | nil =>
    have turned : turn (passed.reverse ++ []) state passed.length = pastTheEnd := by
      rw [turn, tokenAt_here]
      rfl
    unfold loop
    split <;> simp_all [walk, pastTheEnd]
  | cons place rest =>
    have turned := turn_eq state place passed rest
    rw [walk]
    split
    · rename_i isEnd
      rw [if_pos isEnd] at turned
      unfold loop
      cases finished : finish state place <;> split <;> simp_all
    · rename_i goesOn
      rw [if_neg goesOn] at turned
      cases stepped : step state passed place rest with
      | error failure =>
        unfold loop
        split <;> simp_all
      | ok result =>
        obtain ⟨other, count⟩ := result
        have next : loop (passed.reverse ++ place :: rest) state passed.length =
            loop (passed.reverse ++ place :: rest) other (passed.length + 1 + count) := by
          rw [loop]
          split <;> simp_all
        have within := step_within stepped
        have handled : passed.reverse ++ place :: rest =
            ((rest.take count).reverse ++ place :: passed).reverse ++ rest.drop count := by
          simp
        have long :
            passed.length + 1 + count = ((rest.take count).reverse ++ place :: passed).length := by
          simp
          omega
        rw [next, Result.ok_bind, handled, long, loop_eq, ← walk_read]
termination_by rest.length

/-- One turn takes the loop from a state and a cursor to the next ones. -/
def Turns (tokens : List NumberedToken) (before after : State × Nat) : Prop :=
  turn tokens before.1 before.2 = .ok (.inr after)

/-- The loop comes to a cursor. -/
def Reaches (tokens : List NumberedToken) (cursor : Nat) : Prop :=
  ∃ state, Relation.ReflTransGen (Turns tokens) ({}, 0) (state, cursor)

theorem loop_of_turns {tokens : List NumberedToken} {first last : State × Nat}
    (turns : Relation.ReflTransGen (Turns tokens) first last) :
    loop tokens first.1 first.2 = loop tokens last.1 last.2 := by
  induction turns with
  | refl => rfl
  | @tail middle last _ turned inductionHypothesis =>
    obtain ⟨other, next⟩ := last
    have turned : turn tokens middle.1 middle.2 = .ok (.inr (other, next)) := turned
    rw [inductionHypothesis, loop]
    split <;> simp_all

end Cursor

/-! ## How annotation ends -/

/-- How annotation of some tokens may end: in a stream with one end of input, its last token, in a
diagnostic about the structure of the program, or in the fault of a numeric literal that is no
number or an integer of too many digits. -/
def Stops (tokens : List Token) : Result (List AnnotatedToken) → Prop
  | .ok written => ∃ before last, written = before ++ [last] ∧ last.role = .endOfInput ∧
      ∀ token ∈ before, token.role ≠ .endOfInput
  | .error failure => IsRefusal (∃ token ∈ tokens, (token.kind = .int ∨ token.kind = .float) ∧
      (Decimal.NoNumber token.literal ∨ Decimal.Overlong token.literal)) failure

section Ending

variable {tokens : List Token}

/-- A literal without a value is a number out of range, too long or none at all. -/
theorem stops_literalValue {place : NumberedToken} (member : place.token ∈ tokens)
    {failure : Failure} (failed : literalValue place = .error failure) :
    Stops tokens (.error failure) := by
  have number (isNumber : place.kind = .int ∨ place.kind = .float)
      (malformed : Value.ofNumberLiteral place.literal = .error .malformed) :
      Stops tokens (.error (.fault .malformedNumber)) :=
    ⟨rfl, place.token, member, isNumber, Value.ofNumberLiteral_malformed_iff.mp malformed⟩
  unfold literalValue at failed
  split at failed
  · split at failed <;> cases failed
    · rfl
    · exact number (.inl ‹_›) ‹_›
  · split at failed <;> cases failed
    · rfl
    · exact number (.inr ‹_›) ‹_›
  all_goals cases failed

theorem role_ne_endOfInput {frames : List Frame} {leaves : List NumberedToken}
    {token : AnnotatedToken} (origin : Origin frames leaves token) : token.role ≠ .endOfInput := by
  cases origin with
  | @plain leaf role among fits =>
    intro isEnd
    rw [show role = .endOfInput from isEnd] at fits
    cases kind : leaf.kind <;> rw [kind] at fits <;> cases fits
  | name => simp
  | block among inPath =>
    obtain ⟨frame, -, member⟩ := List.mem_flatMap.mp inPath
    simp only [List.mem_cons, List.not_mem_nil, or_false] at member
    rcases member with rfl | rfl <;> rintro ⟨⟩
  | type | inherited | literal | expression => rintro ⟨⟩

/-- What is written for a program ends in its only end of input. -/
theorem stops_of_reads {blocks : List Block} {places : List NumberedToken}
    {written : List AnnotatedToken} (reads : Reads blocks places written) :
    Stops tokens (.ok written) := by
  have behind (before : List AnnotatedToken) {output : List AnnotatedToken}
      (others : ∀ token ∈ before, token.role ≠ .endOfInput) (stops : Stops tokens (.ok output)) :
      Stops tokens (.ok (before ++ output)) := by
    obtain ⟨middle, last, rfl, isEnd, apart⟩ := stops
    exact ⟨before ++ middle, last, by simp, isEnd, List.forall_mem_append.mpr ⟨others, apart⟩⟩
  have statement {frames : List Frame} {statement : Statement NumberedToken}
      (sound : Sound statement) :
      ∀ token ∈ statementTokens frames statement, token.role ≠ .endOfInput :=
    fun token member => role_ne_endOfInput (origin_statement sound token member)
  induction reads with
  | finish sound _ => exact ⟨_, _, rfl, rfl, statement sound⟩
  | newline sound _ _ inductionHypothesis =>
    refine behind _ (statement sound) (behind [_] ?_ inductionHypothesis)
    simp [NumberedToken.inRole]
  | close sound _ _ inductionHypothesis =>
    refine behind _ (statement sound) (behind [_] ?_ inductionHypothesis)
    simp [NumberedToken.inRole]
  | open_ _ _ _ inductionHypothesis =>
    refine behind [_] ?_ inductionHypothesis
    simp [blockToken, NumberedToken.inRole]

end Ending

theorem NumberedToken.length_ofTokens (count : Nat) (tokens : List Token) :
    (ofTokens count tokens).length = tokens.length := by
  rw [← List.length_map NumberedToken.token, map_token_ofTokens]

/-- On a list of tokens that ends in an end of input the loop does the annotation.  It ends in one
of the ways of `Stops`, none of which is a look outside the list, and each turn of it and of the
search for a header goes on at a later token of the list. -/
theorem annotate_stops {tokens : List Token}
    (ends : tokens.getLast?.any (·.kind = .endOfInput) = true) :
    Cursor.loop (NumberedToken.ofTokens 0 tokens) {} 0 = annotate tokens ∧
      Stops tokens (annotate tokens) ∧
      (∀ state cursor other next,
        Cursor.turn (NumberedToken.ofTokens 0 tokens) state cursor = .ok (.inr (other, next)) →
          cursor < next ∧ next < tokens.length) ∧
      ∀ index next, Cursor.headerTurn (NumberedToken.ofTokens 0 tokens) index = .ok (.inr next) →
        index < next ∧ next < tokens.length := by
  have walked : annotate tokens = walk {} [] 0 (NumberedToken.ofTokens 0 tokens) := if_pos ends
  have long := NumberedToken.length_ofTokens 0 tokens
  have numberedEnds :
      (NumberedToken.ofTokens 0 tokens).getLast?.any (·.kind = .endOfInput) = true := by
    rw [← NumberedToken.map_token_ofTokens 0 tokens, List.getLast?_map, Option.any_map] at ends
    exact ends
  have bounded : Bounded (fun failure => Stops tokens (.error failure))
      (NumberedToken.ofTokens 0 tokens) :=
    ⟨ends_of_getLast ends 0, fun token member failure failed =>
      stops_literalValue (NumberedToken.token_mem_of_mem member) failed⟩
  refine ⟨?_, ?_, ?_, ?_⟩
  · rw [walked]
    exact Cursor.loop_eq {} [] _
  · rw [walked]
    have framed : ({} : State).frames = framesOfBlocks [] := rfl
    rcases reads_or_refused isRefusal_of_isStructural atLineStart_initial framed bounded with
      ⟨failure, failed, stops⟩ | ⟨written, reads⟩
    · rw [failed]
      exact stops
    · rw [walk_program reads]
      exact stops_of_reads reads
  · intro state cursor other next turned
    rw [← long]
    exact Cursor.turn_forward numberedEnds turned
  · intro index next turned
    rw [← long]
    exact Cursor.headerTurn_forward turned

/-- Annotation may end in a fault although every numeric literal is a number. -/
theorem annotate_stops_overlong :
    (assignment paddedSeven).getLast?.any (·.kind = .endOfInput) = true ∧
      annotate (assignment paddedSeven) = .error (.fault .malformedNumber) ∧
      ∀ token ∈ assignment paddedSeven, token.kind = .int ∨ token.kind = .float →
        ¬ Decimal.NoNumber token.literal := by
  have isNumber : ¬ Decimal.NoNumber paddedSeven := isNumeral_paddedSeven.isNumber
  refine ⟨rfl, annotate_assignment_overlong isNumeral_paddedSeven length_paddedSeven, ?_⟩
  rintro token member number
  simp only [assignment, List.mem_cons, List.not_mem_nil, or_false] at member
  rcases member with rfl | rfl | rfl | rfl
  · simp at number
  · simp at number
  · exact isNumber
  · simp at number

/-- A line end, a block with a path as its header, and tokens behind the first end of the input. -/
theorem annotate_stops_behind_block :
    let tokens : List Token := [⟨.newline, "\n", 1, 1⟩, ⟨.identifier, "a", 2, 1⟩,
      ⟨.arrow, "->", 2, 3⟩, ⟨.identifier, "b", 2, 6⟩, ⟨.arrow, "->", 2, 8⟩,
      ⟨.leftBrace, "\x7b", 2, 11⟩, ⟨.rightBrace, "\x7d", 2, 12⟩, ⟨.endOfInput, "", 2, 13⟩,
      ⟨.star, "*", 2, 14⟩, ⟨.endOfInput, "", 2, 15⟩]
    tokens.getLast?.any (·.kind = .endOfInput) = true ∧
      Cursor.loop (NumberedToken.ofTokens 0 tokens) {} 0 = annotate tokens ∧
      Stops tokens (annotate tokens) ∧
      (∃ other, Cursor.turn (NumberedToken.ofTokens 0 tokens) {} 0 = .ok (.inr (other, 1)) ∧
        0 < 1 ∧ 1 < tokens.length) ∧
      Cursor.headerTurn (NumberedToken.ofTokens 0 tokens) 1 = .ok (.inr 3) ∧
      1 < 3 ∧ 3 < tokens.length := by
  intro tokens
  have stops := @annotate_stops tokens rfl
  exact ⟨rfl, stops.1, stops.2.1, ⟨_, rfl, stops.2.2.1 {} 0 _ 1 rfl⟩, rfl, stops.2.2.2 1 3 rfl⟩

end ParaLang.Annotations
