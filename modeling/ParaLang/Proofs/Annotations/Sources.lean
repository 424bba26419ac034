import ParaLang.Interpretation
import ParaLang.Proofs.Annotations.Contents
import ParaLang.Proofs.Annotations.Syntax
import ParaLang.Proofs.Token.Spelling

/-! # The tokens of program texts

The tokens that are read from a text end with their only end of input, their numbers have the
shape of numerals, and their texts fit their kinds.  So annotation of a text either succeeds or
ends in a diagnostic. -/

namespace ParaLang

namespace Lexeme

theorem kind?_ne_endOfInput (lexeme : Lexeme) : lexeme.kind? ≠ some .endOfInput := by
  intro isEnd
  have makes := canMake_of_kind? isEnd
  cases terminal : lexeme.terminal <;> rw [terminal] at makes <;> cases makes

/-- The only failure of cutting is a character that starts no lexeme. -/
theorem cut_fails {position : Position} {source : List Char} {failure : Failure}
    (fails : cut position source = .error failure) : ∃ diagnostic, failure = .diagnostic diagnostic := by
  have halts := halts_of_cut fails
  clear fails
  induction halts with
  | here _ => exact ⟨_, rfl⟩
  | later _ _ inductionHypothesis => exact inductionHypothesis

end Lexeme

namespace Token

open ParaLang.Decimal (IsNumeral IsDecimal)
open ParaLang.Annotations (EndsOnce WellShaped typeNames)
open ParaLang.Expression (rank?)

/-! ## The end of the input -/

theorem ofLexemes_ends (broken : Bool) (finish : Position) (lexemes : List Lexeme) :
    EndsOnce (ofLexemes broken finish lexemes) := by
  have extend {tokens : List Token} {token : Token} (goesOn : token.kind ≠ .endOfInput)
      (ends : EndsOnce tokens) : EndsOnce (token :: tokens) := by
    obtain ⟨before, last, rfl, isEnd, only⟩ := ends
    exact ⟨token :: before, last, rfl, isEnd, List.forall_mem_cons.mpr ⟨goesOn, only⟩⟩
  induction lexemes generalizing broken finish with
  | nil => exact ⟨[], _, rfl, rfl, by simp⟩
  | cons lexeme rest inductionHypothesis =>
    rw [ofLexemes]
    split
    · exact inductionHypothesis _ _
    · split
      · exact inductionHypothesis _ _
      · exact extend (by simp) (inductionHypothesis _ _)
    · rename_i kind _ isKind
      refine extend (fun isEnd => lexeme.kind?_ne_endOfInput ?_) (inductionHypothesis _ _)
      rw [isKind, show kind = .endOfInput from isEnd]

theorem endsOnce_of_tokenize {source : String} {tokens : List Token}
    (read : tokenize source = .ok tokens) : EndsOnce tokens := by
  rw [tokenize, Result.bind_eq_ok_iff] at read
  obtain ⟨lexemes, -, equal⟩ := read
  cases equal
  exact ofLexemes_ends _ _ _

/-! ## Texts and kinds -/

section WellSpelled

variable {token : Token}

theorem wellShaped_of_wellSpelled (spelled : token.WellSpelled) : WellShaped token := by
  obtain ⟨terminal, spells, isKind⟩ := spelled
  have makes := Lexeme.canMake_of_kind? isKind
  cases terminal with
  | number =>
    simp only [Lexeme.kind?, Option.some.injEq] at isKind
    rcases spells with isNumeral | isDecimal
    · rw [isNumeral.noPoint] at isKind
      exact ⟨fun _ => isNumeral, fun isFloat => by simp [isFloat] at isKind⟩
    · rw [isDecimal.point] at isKind
      exact ⟨fun isInt => by simp [isInt] at isKind, fun _ => isDecimal⟩
  | _ => constructor <;> intro kind <;> rw [kind] at makes <;> cases makes

theorem mem_typeNames_of_wellSpelled (spelled : token.WellSpelled) (isType : token.kind = .typeName) :
    token.literal ∈ typeNames := by
  obtain ⟨terminal, spells, isKind⟩ := spelled
  rw [isType] at isKind
  have makes := Lexeme.canMake_of_kind? isKind
  cases terminal with
  | name =>
    simp only [Lexeme.kind?, Option.some.injEq, String.ofList_toList] at isKind
    unfold TokenKind.ofWord at isKind
    split at isKind
    case h_1 isText | h_2 isText | h_3 isText | h_4 isText => simp [typeNames, isText]
    all_goals cases isKind
  | _ => cases makes

/-- An operator is written as a single symbol. -/
theorem exists_symbol_of_operator (spelled : token.WellSpelled)
    (isOperator : token.kind.isOperator = true) :
    ∃ character, token.literal = String.ofList [character] ∧
      TokenKind.ofSymbol character = token.kind := by
  obtain ⟨terminal, spells, isKind⟩ := spelled
  have makes := Lexeme.canMake_of_kind? isKind
  cases terminal with
  | symbol character =>
    obtain ⟨text, symbol⟩ := spells
    refine ⟨character, ?_, Option.some.inj isKind⟩
    rw [← text, String.ofList_toList]
  | _ =>
    cases kind : token.kind <;>
      simp [kind, Lexeme.canMake, TokenKind.isOperator, TokenKind.isModifier] at isOperator makes

theorem ranked_of_wellSpelled (spelled : token.WellSpelled)
    (isOperator : token.kind.isOperator = true) : (rank? token.literal).isSome := by
  obtain ⟨character, literal, isKind⟩ := exists_symbol_of_operator spelled isOperator
  rw [← isKind] at isOperator
  unfold TokenKind.ofSymbol at isOperator
  rw [literal]
  split at isOperator <;> first | rfl | cases isOperator

/-- The symbol of the sign is no single character. -/
theorem ne_negation_of_wellSpelled (spelled : token.WellSpelled)
    (isOperator : token.kind.isOperator = true) : token.literal ≠ Expression.negationSymbol := by
  obtain ⟨character, literal, -⟩ := exists_symbol_of_operator spelled isOperator
  intro isNegation
  have texts := congrArg String.toList (literal.symm.trans isNegation)
  rw [String.toList_ofList] at texts
  exact absurd texts (by simp [Expression.negationSymbol])

end WellSpelled

end Token

namespace Annotations

open ParaLang.Token (tokenize)

section Sources

variable {source : String} {tokens : List Token}

/-- The tokens of a text fit their kinds, wherever they stand. -/
theorem genuine_of_tokenize (read : tokenize source = .ok tokens) {places : Place → Prop}
    {numbered : NumberedToken} (member : numbered.token ∈ tokens) (inside : places numbered.place) :
    Genuine places numbered := by
  rcases Token.wellSpelled_of_tokenize read _ member with isNewline | isEnd | spelled
  · have kind : numbered.kind = .newline := isNewline
    exact ⟨inside, by simp [kind], by simp [kind, TokenKind.isOperator]⟩
  · have kind : numbered.kind = .endOfInput := isEnd
    exact ⟨inside, by simp [kind], by simp [kind, TokenKind.isOperator]⟩
  · exact ⟨inside, Token.mem_typeNames_of_wellSpelled spelled, Token.ranked_of_wellSpelled spelled⟩

theorem ne_negation_of_tokenize (read : tokenize source = .ok tokens) :
    ∀ token ∈ tokens, token.kind.isOperator = true →
      token.literal ≠ Expression.negationSymbol := by
  intro token member isOperator
  rcases Token.wellSpelled_of_tokenize read token member with kind | kind | spelled
  · simp [kind, TokenKind.isOperator] at isOperator
  · simp [kind, TokenKind.isOperator] at isOperator
  · exact Token.ne_negation_of_wellSpelled spelled isOperator

theorem wellShaped_of_tokenize (read : tokenize source = .ok tokens) :
    ∀ token ∈ tokens, WellShaped token := by
  intro token member
  rcases Token.wellSpelled_of_tokenize read token member with kind | kind | spelled
  · exact ⟨by simp [kind], by simp [kind]⟩
  · exact ⟨by simp [kind], by simp [kind]⟩
  · exact Token.wellShaped_of_wellSpelled spelled

/-- Annotation of the tokens of a text ends in a structural diagnostic if it fails, or at an
overlong integer. -/
theorem annotate_fails (read : tokenize source = .ok tokens) {failure : Failure}
    (fails : annotate tokens = .error failure) :
    IsRefusal (∃ token ∈ tokens, IsOverlong token) failure := by
  have last : tokens.getLast?.any (·.kind = .endOfInput) = true := by
    obtain ⟨before, finish, rfl, isEnd, -⟩ := Token.endsOnce_of_tokenize read
    rw [List.getLast?_concat]
    simp [isEnd]
  rcases reads_or_refused_shaped last (wellShaped_of_tokenize read) with
    ⟨written, annotated⟩ | ⟨other, failed, refusal⟩
  · rw [annotated] at fails
    cases fails
  · rw [failed] at fails
    exact Except.error.inj fails ▸ refusal

/-- Every token of an annotated text carries what interpretation relies on. -/
theorem furnished_of_annotate (read : tokenize source = .ok tokens) {places : Place → Prop}
    (inside : ∀ numbered ∈ NumberedToken.ofTokens 0 tokens, places numbered.place)
    {written : List AnnotatedToken} (annotated : annotate tokens = .ok written) :
    ∀ token ∈ written, Furnished places token :=
  furnished_of_reads (annotate_eq_ok_iff.mp annotated).2
    (fun numbered member =>
      genuine_of_tokenize read (NumberedToken.token_mem_of_mem member) (inside numbered member))
    typedFrames_nil

end Sources

/-- A text with an integer of more digits than are read. -/
def HasOverlong (source : String) : Prop :=
  ∃ tokens, tokenize source = .ok tokens ∧ ∃ token ∈ tokens, IsOverlong token

/-- The failures of programs: diagnostics, and the fault of a text with an overlong integer. -/
def Reported (source : String) : Failure → Prop
  | .diagnostic _ => True
  | .fault fault => fault = .malformedNumber ∧ HasOverlong source

/-- A text that is not annotated has a diagnostic or an overlong integer. -/
theorem annotateSource_settles (source : String) :
    Settles (Reported source) (fun written => ∀ token ∈ written, Furnished (fun _ => True) token)
      (annotateSource source) := by
  unfold annotateSource
  cases read : tokenize source with
  | error failure =>
    rw [tokenize] at read
    cases cut : Lexeme.cut .start source.toList with
    | error other =>
      rw [cut] at read
      cases read
      obtain ⟨diagnostic, rfl⟩ := Lexeme.cut_fails cut
      trivial
    | ok lexemes =>
      rw [cut] at read
      cases read
  | ok tokens =>
    rw [Result.ok_bind]
    cases annotated : annotate tokens with
    | error failure =>
      have refusal := annotate_fails read annotated
      cases failure with
      | diagnostic diagnostic => trivial
      | fault fault => exact ⟨refusal.1, tokens, read, refusal.2⟩
    | ok written => exact furnished_of_annotate read (fun _ _ => trivial) annotated

end Annotations

end ParaLang
