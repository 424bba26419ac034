import ParaLang.Proofs.Annotations.Acceptance

/-! # Lines of raw tokens

A token list is cut into lines at line ends, braces and ends of input.  Numbering the tokens and
lifting trees over them to trees over numbered tokens leads from raw lines to what annotation
reads, and back. -/

namespace ParaLang.Annotations

open ParaLang.Grammar

/-! ## Cutting -/

/-- A run of tokens and the token that ends it. -/
structure Line where
  run : List Token
  boundary : Token

/-- The lines of a token list; `run` holds the tokens of the line at hand.  Tokens after the last
boundary make no line. -/
def lines (run : List Token) : List Token → List Line
  | [] => []
  | token :: rest =>
    if inLine token.kind then lines (run ++ [token]) rest
    else ⟨run, token⟩ :: lines [] rest

theorem lines_append {run : List Token} (inside : ∀ token ∈ run, inLine token.kind = true)
    {boundary : Token} (cuts : inLine boundary.kind = false) (before rest : List Token) :
    lines before (run ++ boundary :: rest) = ⟨before ++ run, boundary⟩ :: lines [] rest := by
  induction run generalizing before with
  | nil => simp [lines, cuts]
  | cons token run inductionHypothesis =>
    have later := inductionHypothesis (fun other member => inside other (by simp [member]))
      (before ++ [token])
    simp [lines, inside token (by simp), later]

/-- A token list with a boundary starts with a line. -/
theorem exists_line {tokens : List Token} (cut : ∃ token ∈ tokens, inLine token.kind = false) :
    ∃ run boundary rest, tokens = run ++ boundary :: rest ∧
      (∀ token ∈ run, inLine token.kind = true) ∧ inLine boundary.kind = false := by
  induction tokens with
  | nil => simp at cut
  | cons token tokens inductionHypothesis =>
    cases inside : inLine token.kind with
    | false => exact ⟨[], token, tokens, rfl, by simp, inside⟩
    | true =>
      have later : ∃ token ∈ tokens, inLine token.kind = false := by
        obtain ⟨other, member, cuts⟩ := cut
        rcases List.mem_cons.mp member with rfl | member
        · rw [inside] at cuts
          cases cuts
        · exact ⟨other, member, cuts⟩
      obtain ⟨run, boundary, rest, rfl, runInside, cuts⟩ := inductionHypothesis later
      refine ⟨token :: run, boundary, rest, rfl, ?_, cuts⟩
      simpa [inside] using runInside

/-! ## Numbering -/

namespace NumberedToken

@[simp] theorem map_token_ofTokens (count : Nat) (tokens : List Token) :
    (ofTokens count tokens).map NumberedToken.token = tokens := by
  induction tokens generalizing count with
  | nil => rfl
  | cons token tokens inductionHypothesis => simp [ofTokens, inductionHypothesis]

/-- The number of tokens in the line after some tokens. -/
def countAfter (count : Nat) : List Token → Nat
  | [] => count
  | token :: rest => countAfter (if token.kind = .newline then 0 else count + 1) rest

theorem ofTokens_append (count : Nat) (before after : List Token) :
    ofTokens count (before ++ after) =
      ofTokens count before ++ ofTokens (countAfter count before) after := by
  induction before generalizing count with
  | nil => rfl
  | cons token before inductionHypothesis => simp [ofTokens, countAfter, inductionHypothesis]

theorem token_mem_of_mem {count : Nat} {tokens : List Token} {numbered : NumberedToken}
    (member : numbered ∈ ofTokens count tokens) : numbered.token ∈ tokens := by
  have image := List.mem_map_of_mem member (f := NumberedToken.token)
  rwa [map_token_ofTokens] at image

end NumberedToken

/-! ## Accepted token lists -/

theorem bounded_all {tokens : List NumberedToken}
    (ends : ∃ token ∈ tokens, token.kind = .endOfInput) : Bounded (fun _ => True) tokens :=
  ⟨ends, fun _ _ _ _ => trivial⟩

theorem atLineStart_initial : AtLineStart {} [] :=
  ⟨by simp, by simp, rfl, rfl, rfl⟩

theorem ends_of_getLast {tokens : List Token}
    (last : tokens.getLast?.any (·.kind = .endOfInput) = true) (count : Nat) :
    ∃ token ∈ NumberedToken.ofTokens count tokens, token.kind = .endOfInput := by
  cases final : tokens.getLast? with
  | none => simp [final] at last
  | some token =>
    have isEnd : token.kind = .endOfInput := by simpa [final] using last
    have member : token ∈ (NumberedToken.ofTokens count tokens).map NumberedToken.token := by
      rw [NumberedToken.map_token_ofTokens]
      exact List.mem_of_getLast? final
    obtain ⟨numbered, inside, rfl⟩ := List.mem_map.mp member
    exact ⟨numbered, inside, isEnd⟩

theorem ends_behind (before : List Token) (token : Token) {rest : List Token}
    (ends : rest.getLast?.any (·.kind = .endOfInput) = true) :
    (before ++ token :: rest).getLast?.any (·.kind = .endOfInput) = true := by
  cases final : rest.getLast? with
  | none => simp [final] at ends
  | some last =>
    rw [final] at ends
    simpa [List.getLast?_append, List.getLast?_cons, final] using ends

/-- Annotation accepts the token lists that are programs. -/
theorem annotate_eq_ok_iff {tokens : List Token} {written : List AnnotatedToken} :
    annotate tokens = .ok written ↔
      tokens.getLast?.any (·.kind = .endOfInput) = true ∧
        Reads [] (NumberedToken.ofTokens 0 tokens) written := by
  unfold annotate
  cases last : tokens.getLast?.any (·.kind = .endOfInput) with
  | false => simp [fail]
  | true =>
    simp only [if_true, true_and]
    constructor
    · intro walked
      have framed : ({} : State).frames = framesOfBlocks [] := rfl
      rcases reads_or_refused (fun _ _ => trivial) atLineStart_initial framed
        (bounded_all (ends_of_getLast last 0)) with ⟨failure, failed, -⟩ | ⟨read, reads⟩
      · rw [failed] at walked
        cases walked
      · rw [walk_program reads] at walked
        cases walked
        exact reads
    · exact walk_program

end ParaLang.Annotations
