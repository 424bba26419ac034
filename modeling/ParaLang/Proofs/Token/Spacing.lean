import ParaLang.Proofs.Token.Spelling

/-! # Blanks between tokens

The tokens of a text can be written with a single blank between any two of them, line ends included.
No two of them fuse that way, so reading this text gives the same tokens at other places. -/

namespace ParaLang.Token

open Lexeme (Cuts)

/-! ## The tokens of a text -/

/-- Tokens as they are read from a text: line ends stand alone, every other token has the text of a
lexeme, and the end of the input comes last.  `broken` tells that no line end may come first. -/
inductive Legible : Bool → List Token → Prop where
  | finish {broken : Bool} {last : Token} (kind : last.kind = .endOfInput)
      (literal : last.literal = "") : Legible broken [last]
  | lineEnd {token : Token} {later : List Token} (kind : token.kind = .newline)
      (literal : token.literal = "\n") (legible : Legible true later) :
      Legible false (token :: later)
  | token {broken : Bool} {token : Token} {later : List Token} (spelled : token.WellSpelled)
      (legible : Legible false later) : Legible broken (token :: later)

theorem legible_of_cuts {position : Position} {source : List Char} {lexemes : List Lexeme}
    (cuts : Cuts position source lexemes) (broken : Bool) (finish : Position) :
    Legible broken (ofLexemes broken finish lexemes) := by
  induction cuts generalizing broken finish with
  | nil => exact .finish rfl rfl
  | @cons position source text rest terminal later scanned _ inductionHypothesis =>
    rw [ofLexemes]
    split
    · exact inductionHypothesis _ _
    · split
      · rename_i isBroken
        subst isBroken
        exact inductionHypothesis _ _
      · rename_i isOpen
        obtain rfl := Bool.eq_false_iff.mpr isOpen
        exact .lineEnd rfl rfl (inductionHypothesis _ _)
    · rename_i kind noLineEnd isKind
      refine .token ⟨terminal, ?_, ?_⟩ (inductionHypothesis _ _)
      · rw [String.toList_ofList]
        refine Lexeme.spells_of_scan scanned ⟨?_, ?_, ?_⟩ <;> rintro rfl <;>
          simp_all [Lexeme.kind?]
      · rw [String.toList_ofList, ← isKind]
        rfl

theorem legible_of_tokenize {source : String} {tokens : List Token}
    (read : tokenize source = .ok tokens) : Legible true tokens := by
  rw [tokenize, Result.bind_eq_ok_iff] at read
  obtain ⟨lexemes, isCut, equal⟩ := read
  cases equal
  exact legible_of_cuts (Lexeme.cuts_of_cut isCut) _ _

/-! ## Blanks -/

/-- The texts of some tokens with a blank between them. -/
def spaced (tokens : List Token) : String :=
  " ".intercalate (tokens.map literal)

theorem toList_spaced_cons (token : Token) {later : List Token} (nonempty : later ≠ []) :
    (spaced (token :: later)).toList = token.literal.toList ++ ' ' :: (spaced later).toList := by
  obtain ⟨next, later, rfl⟩ := List.exists_cons_of_ne_nil nonempty
  simp [spaced, String.intercalate_cons_cons]

theorem Legible.ne_nil {broken : Bool} {tokens : List Token} (legible : Legible broken tokens) :
    tokens ≠ [] := by
  cases legible <;> exact List.cons_ne_nil _ _

/-- Nothing that is written behind a blank goes on with it. -/
theorem Legible.head_noBlank {broken : Bool} {tokens : List Token}
    (legible : Legible broken tokens) :
    ∀ character ∈ (spaced tokens).toList.head?, Lexeme.isBlank character = false := by
  cases legible with
  | finish _ literal => simp [spaced, literal]
  | lineEnd _ literal legible =>
    rw [toList_spaced_cons _ legible.ne_nil, literal]
    simp [Lexeme.isBlank]
  | token spelled legible =>
    obtain ⟨terminal, spells, -⟩ := spelled
    obtain ⟨first, others, split, inked⟩ := Lexeme.first_of_spells spells
    rw [toList_spaced_cons _ legible.ne_nil, split]
    simpa using Lexeme.not_blank_of_isInk inked

/-- Every token ends in front of the blank behind it. -/
theorem Legible.lexes {broken : Bool} {tokens : List Token} (legible : Legible broken tokens) :
    Lexes broken (spaced tokens).toList (tokens.map unplaced) := by
  induction legible with
  | @finish broken last kind literal =>
    have blankless : (spaced [last]).toList = [] := by simp [spaced, literal]
    rw [blankless, List.map_singleton, unplaced, kind, literal]
    exact lexes_nil broken
  | @lineEnd token later kind literal legible inductionHypothesis =>
    rw [toList_spaced_cons _ legible.ne_nil, List.map_cons, unplaced, kind, literal]
    exact lexes_lineFeed (by simp) (lexes_blank legible.head_noBlank inductionHypothesis)
  | @token broken token later spelled legible inductionHypothesis =>
    obtain ⟨terminal, spells, isKind⟩ := spelled
    rw [toList_spaced_cons _ legible.ne_nil]
    exact lexes_spelled ⟨terminal, spells, isKind, Lexeme.endsBefore_blank _ _⟩
      (lexes_blank legible.head_noBlank inductionHypothesis) broken

/-- The tokens of a text, written with single blanks between them, have the same kinds and texts when
they are read again. -/
theorem tokenize_spaced {source : String} {tokens : List Token}
    (read : tokenize source = .ok tokens) :
    ∃ again, tokenize (spaced tokens) = .ok again ∧
      again.map (fun token => (token.kind, token.literal)) =
        tokens.map (fun token => (token.kind, token.literal)) := by
  obtain ⟨lexemes, cuts, same⟩ := (legible_of_tokenize read).lexes .start .start
  refine ⟨ofLexemes true .start lexemes, ?_, ?_⟩
  · rw [tokenize, cuts.cut_eq]
    rfl
  · have forgotten := congrArg (List.map fun token : Token => (token.kind, token.literal)) same
    simpa [Function.comp_def, unplaced] using forgotten

/-- A slash and a star that open no comment are read again, and so is the line end behind one. -/
theorem tokenize_spaced_opener :
    let tokens : List Token := [⟨.identifier, "a", 1, 1⟩, ⟨.newline, "\n", 1, 4⟩, ⟨.slash, "/", 2, 1⟩,
      ⟨.star, "*", 2, 2⟩, ⟨.endOfInput, "", 2, 3⟩]
    tokenize "a//\n/*" = .ok tokens ∧ spaced tokens = "a \n / * " ∧
      ∃ again, tokenize (spaced tokens) = .ok again ∧
        again.map (fun token => (token.kind, token.literal)) =
          tokens.map (fun token => (token.kind, token.literal)) := by
  intro tokens
  have read : tokenize "a//\n/*" = .ok tokens := tokenize_of_cutWithin? 5 rfl
  exact ⟨read, by decide, tokenize_spaced read⟩

end ParaLang.Token
