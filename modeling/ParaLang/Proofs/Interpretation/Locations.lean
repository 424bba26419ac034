import ParaLang.Proofs.Annotations.Locations
import ParaLang.Proofs.Interpretation.Soundness
import ParaLang.Proofs.Token.Stopping

/-! # Where programs fail

A diagnostic tells where in the text of the program the run has failed: the line of a token and its
number in the line, or the line and the column of a character that starts no token.  Only an
expression without operands, whose postfix order is empty, is reported at no place, and an integer
of too many digits to be read ends the run without a diagnostic. -/

namespace ParaLang

open Annotations (NumberedToken Points HasOverlong pointing_walk annotate_fails
  furnished_of_annotate)
open Expression (IsSilent silent_of_arrange)

/-- The places of a text: its tokens are numbered in their lines.  If the text has no tokens, its
characters stand in lines and columns. -/
inductive IsPlace (source : String) : Place → Prop
  | token {tokens : List Token} {numbered : NumberedToken} (read : Token.tokenize source = .ok tokens)
      (member : numbered ∈ NumberedToken.ofTokens 0 tokens) : IsPlace source numbered.place
  | character {before after : List Char} {character : Char} {failure : Failure}
      (unread : Token.tokenize source = .error failure)
      (split : source.toList = before ++ character :: after) :
      IsPlace source ⟨lineBehind before, columnBehind before⟩

/-- If a text has no tokens, the failure is at one of its characters. -/
theorem tokenize_fails {source : String} {failure : Failure}
    (fails : Token.tokenize source = .error failure) :
    ∃ diagnostic, failure = .diagnostic diagnostic ∧ diagnostic.At (IsPlace source) := by
  rcases Token.tokenize_tiles source with
    ⟨tokens, read, -⟩ | ⟨before, character, after, split, unread, -⟩
  · rw [read] at fails
    cases fails
  · have place := IsPlace.character fails split
    rw [unread] at fails
    obtain rfl := Except.error.inj fails
    exact ⟨_, rfl, _, place, rfl, rfl⟩

theorem pointing_annotate {source : String} {tokens : List Token}
    (read : Token.tokenize source = .ok tokens) {failure : Failure}
    (fails : annotate tokens = .error failure) :
    (∃ diagnostic, failure = .diagnostic diagnostic ∧ diagnostic.At (IsPlace source)) ∨
      (failure = .fault .malformedNumber ∧ HasOverlong source) := by
  have points := pointing_walk {} [] 0 fun _ member => IsPlace.token read member
  have refusal := annotate_fails read fails
  obtain ⟨before, finish, rfl, isEnd, -⟩ := Token.endsOnce_of_tokenize read
  rw [annotate, if_pos (by simp [isEnd])] at fails
  cases failure with
  | diagnostic diagnostic => exact .inl ⟨diagnostic, rfl, points.of_error fails⟩
  | fault fault =>
    obtain ⟨rfl, overlong⟩ := refusal
    exact .inr ⟨rfl, _, read, overlong⟩

/-- Every error tells where it is, but for one: a program whose run comes to an expression of nothing
but parentheses and positive signs.  The only failure that is no diagnostic is that of an integer of
more digits than are read. -/
theorem runProgram_locates {verbosity : Nat} {source : String} {failure : Failure}
    (fails : (runProgram verbosity source).outcome = .error failure) :
    (∃ diagnostic, failure = .diagnostic diagnostic ∧
      (diagnostic.At (IsPlace source) ∨
        diagnostic = ⟨.noResult, none, none, none⟩ ∧
          ∃ written, annotateSource source = .ok written ∧ ∃ token ∈ written, ∃ run,
            token.expression = some run ∧ ∀ item ∈ run, IsSilent item)) ∨
      (failure = .fault .malformedNumber ∧ HasOverlong source) := by
  simp only [runProgram, Traced.outcome_bind, Traced.outcome_lift] at fails
  cases annotated : annotateSource source with
  | error other =>
    rw [annotated] at fails
    obtain rfl := Except.error.inj fails
    unfold annotateSource at annotated
    cases read : Token.tokenize source with
    | error earlier =>
      rw [read] at annotated
      obtain rfl := Except.error.inj annotated
      obtain ⟨diagnostic, isDiagnostic, place⟩ := tokenize_fails read
      exact .inl ⟨diagnostic, isDiagnostic, .inl place⟩
    | ok tokens =>
      rw [read, Result.ok_bind] at annotated
      rcases pointing_annotate read annotated with ⟨diagnostic, isDiagnostic, place⟩ | overlong
      · exact .inl ⟨diagnostic, isDiagnostic, .inl place⟩
      · exact .inr overlong
  | ok written =>
    rw [annotated, Result.ok_bind] at fails
    obtain ⟨tokens, read, isAnnotated⟩ := Result.bind_eq_ok_iff.mp annotated
    have furnished := furnished_of_annotate read (fun _ member => IsPlace.token read member)
      isAnnotated
    have settles := settles_interpret verbosity furnished
      fun token member run given empty =>
        (⟨token, member, run, given, (silent_of_arrange empty).2⟩ :
          ∃ token ∈ written, ∃ run, token.expression = some run ∧ ∀ item ∈ run, IsSilent item)
    have located := settles.of_error fails
    cases failure with
    | fault fault => exact located.elim
    | diagnostic diagnostic =>
      rcases located with ⟨silent, nowhere⟩ | place
      · exact .inl ⟨diagnostic, rfl, .inr ⟨nowhere, written, rfl, silent⟩⟩
      · exact .inl ⟨diagnostic, rfl, .inl place⟩

/-- A division by zero is reported at the operator. -/
theorem runProgram_locates_division :
    ∃ failure, (runProgram 0 "x=1/0").outcome = .error failure ∧
      ((∃ diagnostic, failure = .diagnostic diagnostic ∧
        (diagnostic.At (IsPlace "x=1/0") ∨
          diagnostic = ⟨.noResult, none, none, none⟩ ∧
            ∃ written, annotateSource "x=1/0" = .ok written ∧ ∃ token ∈ written, ∃ run,
              token.expression = some run ∧ ∀ item ∈ run, IsSilent item)) ∨
        (failure = .fault .malformedNumber ∧ HasOverlong "x=1/0")) := by
  have read : Token.tokenize "x=1/0" = .ok
      [⟨.identifier, "x", 1, 1⟩, ⟨.equals, "=", 1, 2⟩, ⟨.int, "1", 1, 3⟩, ⟨.slash, "/", 1, 4⟩,
        ⟨.int, "0", 1, 5⟩, ⟨.endOfInput, "", 1, 6⟩] :=
    Token.tokenize_of_cutWithin? 5 rfl
  have fails : (runProgram 0 "x=1/0").outcome =
      fail .divisionByZero (some 1) (some 4) := by
    rw [runProgram, annotateSource, read]
    rfl
  exact ⟨_, fails, runProgram_locates fails⟩

/-- An expression of an empty pair of parentheses is reported at no place. -/
theorem runProgram_nowhere : ∃ diagnostic,
    (runProgram 0 "x=()").outcome = .error (.diagnostic diagnostic) ∧
      diagnostic.line = none ∧ diagnostic.token = none := by
  have read : Token.tokenize "x=()" = .ok
      [⟨.identifier, "x", 1, 1⟩, ⟨.equals, "=", 1, 2⟩, ⟨.leftParen, "(", 1, 3⟩,
        ⟨.rightParen, ")", 1, 4⟩, ⟨.endOfInput, "", 1, 5⟩] :=
    Token.tokenize_of_cutWithin? 4 rfl
  have fails : (runProgram 0 "x=()").outcome = fail .noResult := by
    rw [runProgram, annotateSource, read]
    rfl
  exact ⟨_, fails, rfl, rfl⟩

end ParaLang
