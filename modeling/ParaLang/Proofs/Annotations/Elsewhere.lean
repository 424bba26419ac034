import ParaLang.Proofs.Annotations.Lines
import ParaLang.Proofs.Annotations.Renumbering
import ParaLang.Proofs.Token.Spelling

/-! # Programs at other places

Whether tokens make a program, and what is written for it up to places, is a matter of their kinds
and their texts. -/

namespace ParaLang.Annotations

open ParaLang.Grammar

/-- The kind and the text of a token, without its place. -/
def NumberedToken.unplaced (numbered : NumberedToken) : Token :=
  numbered.token.unplaced

open NumberedToken (unplaced)
open AnnotatedToken (essence)

theorem keepsText_unplaced : KeepsText unplaced := fun _ => ⟨rfl, rfl⟩

theorem map_unplaced_ofTokens (count : Nat) (tokens : List Token) :
    (NumberedToken.ofTokens count tokens).map unplaced = tokens.map Token.unplaced := by
  have image := congrArg (List.map Token.unplaced) (NumberedToken.map_token_ofTokens count tokens)
  rwa [List.map_map] at image

theorem exists_statement_elsewhere {statement : Statement NumberedToken} (sound : Sound statement)
    {run : List NumberedToken} (same : run.map unplaced = statement.leaves.map unplaced) :
    ∃ other : Statement NumberedToken, other.leaves = run ∧ Sound other ∧ ∀ frames,
      (statementTokens frames other).map essence = (statementTokens frames statement).map essence := by
  have readable := (readable_iff keepsText_unplaced).mp sound.readable
  rw [← Statement.leaves_map] at same readable
  obtain ⟨other, leaves, otherSound, mapped⟩ := exists_placed keepsText_unplaced
    ((wellKinded_forgotten keepsText_unplaced).mpr sound.kinds)
    ((compatible_forgotten keepsText_unplaced).mpr sound.compatible) readable same
  refine ⟨other, leaves, otherSound, fun frames => ?_⟩
  rw [← essence_statementTokens keepsText_unplaced frames other, mapped,
    essence_statementTokens keepsText_unplaced]

theorem blockOf_elsewhere {header other : Header NumberedToken}
    (same : other.map unplaced = header.map unplaced) : blockOf other = blockOf header := by
  have literals (header : Header NumberedToken) : blockOf header =
      ⟨(header.map unplaced).path.last.literal,
        ((header.map unplaced).path.outer.map (·.1.literal)).reverse,
        (header.map unplaced).memberType.map (·.2.literal)⟩ := by
    simp only [blockOf, Header.map, Grammar.Path.map, List.map_map, Option.map_map]
    rfl
  rw [literals, literals, same]

theorem exists_header_elsewhere {header : Header NumberedToken}
    (kinds : header.WellKinded NumberedToken.kind) {run : List NumberedToken}
    (same : run.map unplaced = header.leaves.map unplaced) :
    ∃ other : Header NumberedToken, other.leaves = run ∧ other.WellKinded NumberedToken.kind ∧
      blockOf other = blockOf header := by
  obtain ⟨other, leaves, mapped⟩ := @Header.exists_of_leaves _ _ unplaced
    (header.map unplaced) run (by rw [same, Header.leaves_map])
  have plainKinds : (header.map unplaced).WellKinded Token.kind :=
    (Header.wellKinded_map header).mpr kinds
  rw [← mapped] at plainKinds
  exact ⟨other, leaves, (@Header.wellKinded_map _ _ unplaced Token.kind other).mp plainKinds,
    blockOf_elsewhere mapped⟩

/-- The ends of statements read alike. -/
theorem essence_boundary (token other : AnnotatedToken) (ends : token.role.isBoundary = true)
    (otherEnds : other.role.isBoundary = true) : token.essence = other.essence := by
  rw [AnnotatedToken.essence_of_boundary ends, AnnotatedToken.essence_of_boundary otherEnds]

/-- Whether tokens are a program is not a matter of their places, and neither is what is written
for them, up to places. -/
theorem exists_reads_elsewhere {blocks : List Block} {tokens others : List NumberedToken}
    {written : List AnnotatedToken} (reads : Reads blocks tokens written)
    (same : others.map unplaced = tokens.map unplaced) :
    ∃ later, Reads blocks others later ∧ later.map essence = written.map essence := by
  induction reads generalizing others with
  | @finish statement ending rest sound isEnd =>
    simp only [List.map_append, List.map_cons, List.map_eq_append_iff,
      List.map_eq_cons_iff] at same
    obtain ⟨run, _, rfl, sameRun, place, rest, rfl, samePlace, -⟩ := same
    obtain ⟨other, rfl, otherSound, essence⟩ := exists_statement_elsewhere sound sameRun
    refine ⟨_, .finish otherSound ((congrArg Token.kind samePlace).trans isEnd), ?_⟩
    rw [List.map_append, List.map_append, essence, List.map_singleton, List.map_singleton,
      essence_boundary (place.inRole .endOfInput) (ending.inRole .endOfInput) rfl rfl]
  | @newline blocks statement ending rest output sound isNewline _ inductionHypothesis =>
    simp only [List.map_append, List.map_cons, List.map_eq_append_iff,
      List.map_eq_cons_iff] at same
    obtain ⟨run, _, rfl, sameRun, place, rest, rfl, samePlace, sameRest⟩ := same
    obtain ⟨other, rfl, otherSound, essence⟩ := exists_statement_elsewhere sound sameRun
    obtain ⟨later, reads, laterEssence⟩ := inductionHypothesis sameRest
    refine ⟨_, .newline otherSound ((congrArg Token.kind samePlace).trans isNewline) reads, ?_⟩
    rw [List.map_append, List.map_append, essence, List.map_cons, List.map_cons, laterEssence,
      essence_boundary (place.inRole .newline) (ending.inRole .newline) rfl rfl]
  | @close block blocks statement ending rest output sound isBrace _ inductionHypothesis =>
    simp only [List.map_append, List.map_cons, List.map_eq_append_iff,
      List.map_eq_cons_iff] at same
    obtain ⟨run, _, rfl, sameRun, place, rest, rfl, samePlace, sameRest⟩ := same
    obtain ⟨other, rfl, otherSound, essence⟩ := exists_statement_elsewhere sound sameRun
    obtain ⟨later, reads, laterEssence⟩ := inductionHypothesis sameRest
    refine ⟨_, .close otherSound ((congrArg Token.kind samePlace).trans isBrace) reads, ?_⟩
    rw [List.map_append, List.map_append, essence, List.map_cons, List.map_cons, laterEssence,
      essence_boundary (place.inRole .blockClose) (ending.inRole .blockClose) rfl rfl]
  | @open_ blocks header ending rest output kinds isBrace _ inductionHypothesis =>
    simp only [List.map_append, List.map_cons, List.map_eq_append_iff,
      List.map_eq_cons_iff] at same
    obtain ⟨run, _, rfl, sameRun, place, rest, rfl, samePlace, sameRest⟩ := same
    obtain ⟨other, rfl, otherKinds, sameBlock⟩ := exists_header_elsewhere kinds sameRun
    obtain ⟨later, reads, laterEssence⟩ := inductionHypothesis sameRest
    refine ⟨_, .open_ otherKinds ((congrArg Token.kind samePlace).trans isBrace)
      (sameBlock ▸ reads), ?_⟩
    rw [List.map_cons, List.map_cons, laterEssence,
      essence_boundary (blockToken (blockOf other) place) (blockToken (blockOf header) ending) rfl
        rfl]

theorem reads_elsewhere {blocks : List Block} {tokens others : List NumberedToken}
    {written : List AnnotatedToken} (reads : Reads blocks tokens written)
    (same : others.map unplaced = tokens.map unplaced) : ∃ later, Reads blocks others later :=
  (exists_reads_elsewhere reads same).imp fun _ => And.left

end ParaLang.Annotations
