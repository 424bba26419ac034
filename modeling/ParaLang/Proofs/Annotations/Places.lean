import ParaLang.Proofs.Annotations.Lines
import ParaLang.Proofs.Token.Tiling

/-! # Places in order

The lines of tokens never fall, and they rise behind a line end.  The number of a token counts in
its logical line, which comments can spread over several lines of the text.  So the places of the
tokens of a text grow.  Only the end of the input may fall back: it stands behind the last token
that is no line end, and its number starts anew behind one. -/

namespace ParaLang

/-- On a line further up, or on the same line with a smaller number. -/
def Place.Before (first second : Place) : Prop :=
  first.line < second.line ∨ first.line = second.line ∧ first.number < second.number

/-! ## Lines -/

namespace Lexeme

theorem Gap.lineFeed_mem {breaks : Bool} {gap rest : List Char} (isGap : Gap breaks gap rest)
    (breaking : breaks = true) : '\n' ∈ gap := by
  induction isGap with
  | nil => cases breaking
  | lineFeed => exact .head _
  | blank _ _ inductionHypothesis => exact .tail _ (inductionHypothesis breaking)
  | lineComment _ _ _ inductionHypothesis =>
    exact List.mem_append_right _ (inductionHypothesis breaking)
  | blockComment _ _ inductionHypothesis => simp [inductionHypothesis breaking]

theorem terminal_of_newline {lexeme : Lexeme} (isNewline : lexeme.kind? = some .newline) :
    lexeme.terminal = .lineEnds := by
  have makes := canMake_of_kind? isNewline
  cases terminal : lexeme.terminal <;> simp_all [canMake, TokenKind.isModifier]

/-- A line end takes the line further. -/
theorem line_lt_after_lineEnds {position : Position} {source text rest : List Char}
    (scanned : scan source = some (.lineEnds, text, rest)) :
    position.line < (position.after text).line := by
  have makesNone : ¬ MakesToken .lineEnds := fun makes => makes.2.2 rfl
  have feeds := List.count_pos_iff.mpr ((gap_of_scan scanned makesNone).lineFeed_mem rfl)
  rw [Token.line_after]
  omega

end Lexeme

namespace Token

open Lexeme (Cuts)

/-- The lines of the tokens never fall, and rise behind a line end. -/
def Rising (tokens : List Token) : Prop :=
  tokens.Pairwise fun first second =>
    first.line ≤ second.line ∧ (first.kind = .newline → first.line < second.line)

theorem ofLexemes_ne_nil (broken : Bool) (finish : Position) (lexemes : List Lexeme) :
    ofLexemes broken finish lexemes ≠ [] := by
  obtain ⟨before, last, split, -⟩ := ofLexemes_ends broken finish lexemes
  simp [split]

/-- The tokens of a text from some position on rise, and stand on its line or on later ones. -/
theorem rising_ofLexemes {position : Position} {source : List Char} {lexemes : List Lexeme}
    (cuts : Cuts position source lexemes) (broken : Bool) (finish : Position) :
    Rising (ofLexemes broken finish lexemes).dropLast ∧
      ∀ token ∈ (ofLexemes broken finish lexemes).dropLast, (position.line : Int) ≤ token.line := by
  induction cuts generalizing broken finish with
  | nil => exact ⟨.nil, by simp [ofLexemes]⟩
  | @cons position source text rest terminal later scanned _ inductionHypothesis =>
    have advances : position.line ≤ (position.after text).line := by
      rw [line_after]
      omega
    have skipped (broken : Bool) (finish : Position) :
        Rising (ofLexemes broken finish later).dropLast ∧
          ∀ token ∈ (ofLexemes broken finish later).dropLast,
            (position.line : Int) ≤ token.line := by
      obtain ⟨rising, behind⟩ := inductionHypothesis broken finish
      exact ⟨rising, fun token member => by have below := behind token member; omega⟩
    have written (token : Token) (onLine : token.line = position.line) (broken : Bool)
        (finish : Position)
        (rises : token.kind = .newline → position.line < (position.after text).line) :
        Rising (token :: ofLexemes broken finish later).dropLast ∧
          ∀ other ∈ (token :: ofLexemes broken finish later).dropLast,
            (position.line : Int) ≤ other.line := by
      obtain ⟨rising, behind⟩ := inductionHypothesis broken finish
      rw [List.dropLast_cons_of_ne_nil (ofLexemes_ne_nil _ _ _)]
      refine ⟨List.pairwise_cons.mpr ⟨fun other member => ?_, rising⟩,
        List.forall_mem_cons.mpr ⟨onLine.ge, (skipped broken finish).2⟩⟩
      have below := behind other member
      refine ⟨by omega, fun isNewline => ?_⟩
      have further := rises isNewline
      omega
    rw [ofLexemes]
    split
    · exact skipped _ _
    · rename_i isNewline
      obtain rfl : terminal = .lineEnds := Lexeme.terminal_of_newline isNewline
      split
      · exact skipped _ _
      · exact written _ rfl _ _ fun _ => Lexeme.line_lt_after_lineEnds scanned
    · rename_i noNewline _
      exact written _ rfl _ _ fun isNewline => (noNewline isNewline).elim

theorem rising_of_tokenize {source : String} {tokens : List Token}
    (read : tokenize source = .ok tokens) : Rising tokens.dropLast := by
  rw [tokenize, Result.bind_eq_ok_iff] at read
  obtain ⟨lexemes, isCut, equal⟩ := read
  cases equal
  exact (rising_ofLexemes (Lexeme.cuts_of_cut isCut) true .start).1

end Token

/-! ## Numbers -/

namespace Annotations.NumberedToken

/-- Tokens on lines that rise stand behind whatever stands on their first line in front of them. -/
theorem behind_ofTokens {tokens : List Token} (rising : Token.Rising tokens) {line : Int}
    {count : Nat} (behind : ∀ token ∈ tokens, line ≤ token.line) :
    ∀ numbered ∈ ofTokens count tokens, Place.Before ⟨line, count⟩ numbered.place := by
  induction tokens generalizing count with
  | nil => simp [ofTokens]
  | cons token tokens inductionHypothesis =>
    obtain ⟨rises, laterRising⟩ := List.pairwise_cons.mp rising
    obtain ⟨first, laterBehind⟩ := List.forall_mem_cons.mp behind
    rw [ofTokens, List.forall_mem_cons]
    refine ⟨?_, fun numbered member => ?_⟩
    · rcases first.lt_or_eq with further | same
      · exact .inl further
      · exact .inr ⟨same, by simp [place]⟩
    · -- a line end takes what follows to a later line, and any other token counts
      by_cases isNewline : token.kind = .newline
      · have further := (rises _ (token_mem_of_mem member)).2 isNewline
        exact .inl (first.trans_lt further)
      · rw [if_neg isNewline] at member
        rcases @inductionHypothesis laterRising (count + 1) laterBehind numbered member with
          further | ⟨same, larger⟩
        · exact .inl further
        · refine .inr ⟨same, ?_⟩
          simp only at larger ⊢
          omega

/-- The places of tokens on lines that rise grow. -/
theorem places_ofTokens {tokens : List Token} (rising : Token.Rising tokens) (count : Nat) :
    ((ofTokens count tokens).map place).Pairwise Place.Before := by
  induction tokens generalizing count with
  | nil => exact .nil
  | cons token tokens inductionHypothesis =>
    obtain ⟨rises, laterRising⟩ := List.pairwise_cons.mp rising
    rw [ofTokens, List.map_cons, List.pairwise_cons, List.forall_mem_map]
    refine ⟨fun numbered member => ?_, inductionHypothesis laterRising _⟩
    by_cases isNewline : token.kind = .newline
    · exact .inl ((rises _ (token_mem_of_mem member)).2 isNewline)
    · rw [if_neg isNewline] at member
      exact behind_ofTokens laterRising (fun other among => (rises other among).1) numbered member

end Annotations.NumberedToken

end ParaLang
