import Mathlib
import ParaLang.Proofs.Annotations.Elsewhere
import ParaLang.Proofs.Annotations.Qualification
import ParaLang.Proofs.Annotations.Sources
import ParaLang.Proofs.Token.Seams

/-! # Programs that go on

A program can go on behind a line end outside of all blocks.  What is written up to the line end
stays as it is, and what is written behind it is what annotation writes for the rest alone. -/

namespace ParaLang.Annotations

open ParaLang.Grammar

/-! ## Statements end with a value -/

theorem operand_noEquals {operand : Operand NumberedToken}
    (kinds : operand.WellKinded NumberedToken.kind) :
    ∀ leaf ∈ operand.leaves, leaf.kind ≠ .equals := by
  intro leaf member isEquals
  cases operand with
  | literal token =>
    obtain rfl := List.mem_singleton.mp member
    have isLiteral : leaf.kind.isLiteral = true := kinds
    simp [isEquals, TokenKind.isLiteral] at isLiteral
  | reference path =>
    have kind := Path.kind_leaves kinds leaf member
    simp [isEquals] at kind

theorem value_noEquals {value : RightHandSide NumberedToken}
    (kinds : value.WellKinded NumberedToken.kind) :
    ∀ leaf ∈ value.leaves, leaf.kind ≠ .equals := by
  cases value with
  | single operand => exact operand_noEquals kinds
  | expression first more =>
    exact fun leaf member => (endsRightHandSide_of_inExpression (kinds.1 leaf member)).2

theorem inspected_noEquals {inspected : List (NumberedToken × Option (Operand NumberedToken))}
    (kinds : ∀ link ∈ inspected, link.1.kind = .question ∧
      ∀ operand ∈ link.2, operand.WellKinded NumberedToken.kind) :
    ∀ leaf ∈ inspectedLeaves inspected, leaf.kind ≠ .equals := by
  intro leaf member
  obtain ⟨⟨question, operand⟩, inside, member⟩ := List.mem_flatMap.mp member
  obtain ⟨isQuestion, operandKinds⟩ := kinds _ inside
  rcases List.mem_cons.mp member with rfl | member
  · simp only at isQuestion
    simp [isQuestion]
  · cases operand with
    | none => simp at member
    | some operand => exact operand_noEquals (operandKinds operand rfl) leaf member

theorem valueTokens_ne_nil (frames : List Frame) (value : RightHandSide NumberedToken) :
    valueTokens frames value ≠ [] := by
  cases value with
  | single operand => cases operand <;> simp [valueTokens, operandTokens, pathTokens]
  | expression first more => simp [valueTokens]

theorem unbound_noEquals {first : Segment NumberedToken}
    {more : List (NumberedToken × Segment NumberedToken)}
    (kinds : Statement.WellKinded NumberedToken.kind ⟨first, more, none⟩) :
    ∀ leaf ∈ Statement.leaves ⟨first, more, none⟩, leaf.kind ≠ .equals := by
  intro leaf member
  have plainKinds := (@Statement.wellKinded_map _ _ NumberedToken.token Token.kind
    ⟨first, more, none⟩).mpr kinds
  have plain := segments_noEquals plainKinds.1 plainKinds.2.1
  have image : leaf.token ∈ (Statement.map NumberedToken.token ⟨first, more, none⟩).leaves := by
    rw [Statement.leaves_map]
    exact List.mem_map_of_mem member
  rcases List.mem_append.mp image with before | nothing
  · exact bne_iff_ne.mp (plain leaf.token before)
  · cases nothing

/-- The last token of a statement is no `=`. -/
theorem last_of_statement {frames : List Frame} {statement : Statement NumberedToken}
    (sound : Sound statement) :
    ∀ last ∈ (statementTokens frames statement).getLast?, last.role ≠ .assign := by
  intro last isLast
  have origins := @origin_statement frames statement sound
  obtain ⟨first, more, binding⟩ := statement
  obtain ⟨⟨firstKinds, moreKinds, bindingKinds⟩, -, readable⟩ := sound
  cases binding with
  | none =>
    exact role_ne_assign (origins last (List.mem_of_getLast? isLast))
      (unbound_noEquals ⟨firstKinds, moreKinds, bindingKinds⟩)
  | some binding =>
    obtain ⟨equals, value, inspected⟩ := binding
    obtain ⟨isEquals, valueKinds, inspectedKinds⟩ := bindingKinds _ rfl
    obtain ⟨valueReadable, inspectedReadable⟩ :=
      (Readable.binding isEquals).mp (Readable.append.mp readable).2
    have someValue : valueTokens frames value ++ inspectedTokens frames inspected ≠ [] :=
      List.append_ne_nil_of_left_ne_nil (valueTokens_ne_nil frames value) _
    simp only [statementTokens, Option.map_some, Option.getD_some, bindingTokens] at isLast
    rw [← List.append_assoc, List.append_cons, List.getLast?_append_of_ne_nil _ someValue] at isLast
    rcases List.mem_append.mp (List.mem_of_getLast? isLast) with inValue | inInspected
    · exact role_ne_assign (origin_value valueKinds valueReadable (List.Subset.refl _) last inValue)
        (value_noEquals valueKinds)
    · exact role_ne_assign
        (origin_inspected inspectedKinds inspectedReadable (List.Subset.refl _) last inInspected)
        (inspected_noEquals inspectedKinds)

/-! ## Fronts -/

/-- Inside some open blocks `front` is written for the tokens up to a line end inside the inner
blocks, whatever follows there.  It does not end with an `=`. -/
structure Fronts (blocks inner : List Block) (before : List NumberedToken)
    (front : List AnnotatedToken) : Prop where
  complete : ∀ last ∈ front.getLast?, last.role ≠ .assign
  goesOn : ∀ newline rest later, newline.kind = .newline → Reads inner rest later →
    Reads blocks (before ++ newline :: rest) (front ++ newline.inRole .newline :: later)

section Fronts

variable {blocks inner : List Block} {before : List NumberedToken} {front : List AnnotatedToken}
  {statement : Statement NumberedToken} {place : NumberedToken}

theorem fronts_statement (sound : Sound statement) :
    Fronts blocks blocks statement.leaves (statementTokens (framesOfBlocks blocks) statement) where
  complete := last_of_statement sound
  goesOn _ _ _ isNewline reads := .newline sound isNewline reads

theorem complete_behind {written : List AnnotatedToken} {boundary : AnnotatedToken}
    (isBoundary : boundary.role ≠ .assign) (complete : ∀ last ∈ front.getLast?, last.role ≠ .assign) :
    ∀ last ∈ (written ++ boundary :: front).getLast?, last.role ≠ .assign := by
  rw [List.getLast?_append_cons, List.getLast?_cons]
  cases final : front.getLast? with
  | none => simpa using isBoundary
  | some last => simpa using complete last final

theorem Fronts.newline (fronts : Fronts blocks inner before front) (sound : Sound statement)
    (isNewline : place.kind = .newline) :
    Fronts blocks inner (statement.leaves ++ place :: before)
      (statementTokens (framesOfBlocks blocks) statement ++ place.inRole .newline :: front) where
  complete := complete_behind (by rintro ⟨⟩) fronts.complete
  goesOn newline rest later isEnd reads := by
    simpa using Reads.newline sound isNewline (fronts.goesOn newline rest later isEnd reads)

theorem Fronts.close {block : Block} (fronts : Fronts blocks inner before front)
    (sound : Sound statement) (isBrace : place.kind = .rightBrace) :
    Fronts (block :: blocks) inner (statement.leaves ++ place :: before)
      (statementTokens (framesOfBlocks (block :: blocks)) statement ++
        place.inRole .blockClose :: front) where
  complete := complete_behind (by rintro ⟨⟩) fronts.complete
  goesOn newline rest later isEnd reads := by
    simpa using @Reads.close block _ _ _ _ _ sound isBrace
      (fronts.goesOn newline rest later isEnd reads)

theorem Fronts.open_ {header : Header NumberedToken}
    (fronts : Fronts (blockOf header :: blocks) inner before front)
    (kinds : header.WellKinded NumberedToken.kind) (isBrace : place.kind = .leftBrace) :
    Fronts blocks inner (header.leaves ++ place :: before)
      (blockToken (blockOf header) place :: front) where
  complete := @complete_behind front [] _ (by rintro ⟨⟩) fronts.complete
  goesOn newline rest later isEnd reads := by
    simpa using Reads.open_ kinds isBrace (fronts.goesOn newline rest later isEnd reads)

/-- Two places in one list are the same, or one of them is behind the other. -/
theorem places_cases {α : Type} {front otherFront back otherBack : List α} {token other : α}
    (split : front ++ token :: back = otherFront ++ other :: otherBack) :
    (otherFront = front ∧ other = token ∧ otherBack = back) ∨
      (∃ between, otherFront = front ++ token :: between ∧ back = between ++ other :: otherBack) ∨
      ∃ between, front = otherFront ++ other :: between ∧ otherBack = between ++ token :: back := by
  rcases List.append_eq_append_iff.mp split with ⟨between, rfl, behind⟩ | ⟨between, rfl, behind⟩
  · cases between with
    | nil =>
      cases behind
      exact .inl ⟨by simp, rfl, rfl⟩
    | cons first between =>
      cases behind
      exact .inr (.inl ⟨between, rfl, rfl⟩)
  · cases between with
    | nil =>
      cases behind
      exact .inl ⟨by simp, rfl, rfl⟩
    | cons first between =>
      cases behind
      exact .inr (.inr ⟨between, rfl, rfl⟩)

/-- A later boundary is that of the line or stands behind it. -/
theorem boundary_cases {run rest more : List NumberedToken} {last : NumberedToken}
    (inside : ∀ token ∈ run, inLine token.kind = true) (cuts : inLine last.kind = false)
    (split : run ++ place :: rest = before ++ last :: more) :
    (before = run ∧ last = place ∧ more = rest) ∨
      ∃ between, before = run ++ place :: between ∧ rest = between ++ last :: more := by
  rcases places_cases split with same | behind | ⟨between, rfl, -⟩
  · exact .inl same
  · exact .inr behind
  · rw [inside last (by simp)] at cuts
    cases cuts

/-- What is written for a program, divided at its end or at one of its line ends. -/
inductive Divides (blocks : List Block) (before : List NumberedToken) (last : NumberedToken)
    (more : List NumberedToken) : List AnnotatedToken → Prop where
  | atEnd {front : List AnnotatedToken} (isEnd : last.kind = .endOfInput)
      (fronts : Fronts blocks [] before front) :
      Divides blocks before last more (front ++ [last.inRole .endOfInput])
  | atNewline {inner : List Block} {front later : List AnnotatedToken}
      (isNewline : last.kind = .newline) (fronts : Fronts blocks inner before front)
      (reads : Reads inner more later) :
      Divides blocks before last more (front ++ last.inRole .newline :: later)

section Divides

variable {more : List NumberedToken} {last : NumberedToken}

theorem Divides.extend {outer : List Block} {longer : List NumberedToken}
    {lead written : List AnnotatedToken} (divides : Divides blocks before last more written)
    (extends_ : ∀ inner front, Fronts blocks inner before front →
      Fronts outer inner longer (lead ++ front)) :
    Divides outer longer last more (lead ++ written) := by
  cases divides with
  | atEnd isEnd fronts =>
    rw [← List.append_assoc]
    exact .atEnd isEnd (extends_ _ _ fronts)
  | atNewline isNewline fronts reads =>
    rw [← List.append_assoc]
    exact .atNewline isNewline (extends_ _ _ fronts) reads

theorem divides_of_reads {tokens : List NumberedToken} {written : List AnnotatedToken}
    (reads : Reads blocks tokens written) (split : tokens = before ++ last :: more)
    (cuts : last.kind = .endOfInput ∨ last.kind = .newline)
    (only : ∀ token ∈ before, token.kind ≠ .endOfInput) :
    Divides blocks before last more written := by
  have cutsLine : inLine last.kind = false := by
    rcases cuts with isEnd | isNewline
    · rw [isEnd]; rfl
    · rw [isNewline]; rfl
  -- the division is at the boundary of the first line, or in what follows it
  induction reads generalizing before with
  | @finish statement place rest sound isEnd =>
    rcases boundary_cases (Statement.inLine sound.kinds) cutsLine split with
      ⟨rfl, rfl, rfl⟩ | ⟨between, rfl, -⟩
    · exact .atEnd isEnd (fronts_statement sound)
    · exact absurd isEnd (only place (by simp))
  | @newline blocks statement place rest output sound isNewline reads inductionHypothesis =>
    rcases boundary_cases (Statement.inLine sound.kinds) cutsLine split with
      ⟨rfl, rfl, rfl⟩ | ⟨between, rfl, rfl⟩
    · exact .atNewline isNewline (fronts_statement sound) reads
    · have later := @inductionHypothesis between rfl
        fun token member => only token (by simp [member])
      rw [List.append_cons (statementTokens _ statement)]
      exact later.extend fun inner front fronts => by simpa using fronts.newline sound isNewline
  | @close block blocks statement place rest output sound isBrace reads inductionHypothesis =>
    rcases boundary_cases (Statement.inLine sound.kinds) cutsLine split with
      ⟨rfl, rfl, rfl⟩ | ⟨between, rfl, rfl⟩
    · simp [isBrace] at cuts
    · have later := @inductionHypothesis between rfl
        fun token member => only token (by simp [member])
      rw [List.append_cons (statementTokens _ statement)]
      exact later.extend fun inner front fronts => by simpa using fronts.close sound isBrace
  | @open_ blocks header place rest output kinds isBrace reads inductionHypothesis =>
    rcases boundary_cases (Header.inLine kinds) cutsLine split with
      ⟨rfl, rfl, rfl⟩ | ⟨between, rfl, rfl⟩
    · simp [isBrace] at cuts
    · have later := @inductionHypothesis between rfl
        fun token member => only token (by simp [member])
      exact @Divides.extend _ _ _ _ _ _ [_] _ later
        fun inner front fronts => fronts.open_ kinds isBrace

end Divides

end Fronts

theorem statementTokens_nil {frames : List Frame} {statement : Statement NumberedToken}
    (sound : Sound statement) (noLeaves : statement.leaves = []) :
    statementTokens frames statement = [] := by
  refine List.eq_nil_iff_forall_not_mem.mpr fun token member => ?_
  have origin := origin_statement sound token member
  rw [noLeaves] at origin
  cases origin with
  | plain among | name among | type among | inherited among | literal among | block among =>
    cases among
  | expression among => exact absurd (among List.mem_cons_self) List.not_mem_nil

/-- The end of the input by itself is a program outside of all blocks. -/
theorem reads_single {blocks : List Block} {finish : NumberedToken}
    {written : List AnnotatedToken} (isEnd : finish.kind = .endOfInput)
    (reads : Reads blocks [finish] written) :
    blocks = [] ∧ written = [finish.inRole .endOfInput] := by
  generalize single : [finish] = tokens at reads
  have alone {run rest : List NumberedToken} {place : NumberedToken}
      (split : [finish] = run ++ place :: rest) : run = [] ∧ place = finish := by
    cases run with
    | nil =>
      cases split
      exact ⟨rfl, rfl⟩
    | cons token run =>
      have lengths := congrArg List.length split
      simp at lengths
  cases reads with
  | finish sound _ =>
    obtain ⟨noLeaves, rfl⟩ := alone single
    exact ⟨rfl, by rw [statementTokens_nil sound noLeaves]; rfl⟩
  | newline _ isOther | close _ isOther | open_ _ isOther =>
    obtain ⟨-, rfl⟩ := alone single
    rw [isEnd] at isOther
    cases isOther

/-! ## Joined programs -/

/-- How the tokens written for two programs make those of the program in which the second goes on
behind the first. -/
inductive Joins : List AnnotatedToken → List AnnotatedToken → List AnnotatedToken → Prop where
  | alone {finish : AnnotatedToken} {later : List AnnotatedToken}
      (isEnd : finish.role = .endOfInput) : Joins [finish] later later
  | behind {front tail later : List AnnotatedToken} {newline : AnnotatedToken}
      (complete : ∀ last ∈ front.getLast?, last.role ≠ .assign) (nonempty : tail ≠ [])
      (boundaries : ∀ token ∈ tail, token.role.isBoundary = true)
      (isNewline : newline.role = .newline) :
      Joins (front ++ tail) later (front ++ newline :: later)

open ParaLang.Token (seamTokens endsBroken)

theorem endsWith_of_unplaced {tokens others : List Token}
    (same : others.map Token.unplaced = tokens.map Token.unplaced)
    (ends : tokens.getLast?.any (·.kind = .endOfInput) = true) :
    others.getLast?.any (·.kind = .endOfInput) = true := by
  have last := congrArg List.getLast? same
  rw [List.getLast?_map, List.getLast?_map] at last
  have kinds (last : Option Token) : last.any (·.kind = .endOfInput) =
      (last.map Token.unplaced).any (·.kind = .endOfInput) := by
    cases last <;> rfl
  rw [kinds, last, ← kinds, ends]

theorem annotate_behind {before rest : List Token} {newline : Token}
    {front later : List AnnotatedToken}
    (fronts : Fronts [] [] (NumberedToken.ofTokens 0 before) front)
    (isNewline : newline.kind = .newline) (annotated : annotate rest = .ok later) :
    ∃ written, written.role = .newline ∧
      annotate (before ++ newline :: rest) = .ok (front ++ written :: later) := by
  obtain ⟨ends, reads⟩ := annotate_eq_ok_iff.mp annotated
  refine ⟨NumberedToken.inRole ⟨newline, NumberedToken.countAfter 0 before + 1⟩ .newline, rfl,
    annotate_eq_ok_iff.mpr ⟨ends_behind before newline ends, ?_⟩⟩
  rw [NumberedToken.ofTokens_append, NumberedToken.ofTokens, if_pos isNewline]
  exact fronts.goesOn _ _ _ isNewline reads

/-- The second of two programs is read behind the first as it is by itself. -/
theorem annotate_join {body rest secondTokens : List Token} {finish : Token}
    {written secondWritten : List AnnotatedToken} (isEnd : finish.kind = .endOfInput)
    (only : ∀ token ∈ body, token.kind ≠ .endOfInput)
    (annotated : annotate (body ++ [finish]) = .ok written)
    (secondAnnotated : annotate secondTokens = .ok secondWritten)
    (same : rest.map Token.unplaced = secondTokens.map Token.unplaced) (seam : Position) :
    ∃ later joined, annotate rest = .ok later ∧
      annotate (body ++ seamTokens (endsBroken true body) seam ++ rest) = .ok joined ∧
      Joins written later joined := by
  obtain ⟨-, reads⟩ := annotate_eq_ok_iff.mp annotated
  obtain ⟨secondEnds, secondReads⟩ := annotate_eq_ok_iff.mp secondAnnotated
  obtain ⟨later, laterReads⟩ := @reads_elsewhere _ _ (NumberedToken.ofTokens 0 rest) _ secondReads
    (by rw [map_unplaced_ofTokens, map_unplaced_ofTokens, same])
  have laterAnnotated :=
    annotate_eq_ok_iff.mpr ⟨endsWith_of_unplaced same secondEnds, laterReads⟩
  have inside {tokens : List Token} (only : ∀ token ∈ tokens, token.kind ≠ .endOfInput) :
      ∀ token ∈ NumberedToken.ofTokens 0 tokens, token.kind ≠ .endOfInput :=
    fun numbered member => only _ (NumberedToken.token_mem_of_mem member)
  rcases List.eq_nil_or_concat body with rfl | ⟨before, last, rfl⟩
  · obtain ⟨-, rfl⟩ := reads_single (show NumberedToken.kind ⟨finish, 1⟩ = _ from isEnd) reads
    exact ⟨later, later, laterAnnotated, laterAnnotated, .alone rfl⟩
  rw [List.concat_eq_append] at only reads ⊢
  by_cases isNewline : last.kind = .newline
  · have broken : endsBroken true (before ++ [last]) = true := by
      simp [endsBroken, isNewline]
    rw [broken]
    rw [List.append_assoc, NumberedToken.ofTokens_append, List.singleton_append,
      NumberedToken.ofTokens, if_pos isNewline] at reads
    have divides := divides_of_reads reads rfl (.inr isNewline)
      (inside fun token member => only token (by simp [member]))
    cases divides with
    | atEnd isOther => simp [NumberedToken.kind, isNewline] at isOther
    | atNewline _ fronts single =>
      obtain ⟨rfl, rfl⟩ := reads_single (by exact isEnd) single
      obtain ⟨newline, isLineEnd, joined⟩ := annotate_behind fronts isNewline laterAnnotated
      refine ⟨later, _, laterAnnotated, ?_, .behind fronts.complete (by simp) ?_ isLineEnd⟩
      · simpa [seamTokens] using joined
      · simp [NumberedToken.inRole, Role.isBoundary]
  · have open_ : endsBroken true (before ++ [last]) = false := by
      simp [endsBroken, isNewline]
    rw [open_]
    rw [NumberedToken.ofTokens_append] at reads
    have divides := divides_of_reads reads rfl (.inl isEnd) (inside only)
    cases divides with
    | atEnd _ fronts =>
      obtain ⟨newline, isLineEnd, joined⟩ := @annotate_behind _ _
        ⟨.newline, "\n", seam.line, seam.column⟩ _ _ fronts rfl laterAnnotated
      refine ⟨later, _, laterAnnotated, ?_, .behind fronts.complete (by simp) ?_ isLineEnd⟩
      · simpa [seamTokens] using joined
      · simp [NumberedToken.inRole, Role.isBoundary]
    | atNewline isOther => simp [NumberedToken.kind, isEnd] at isOther

end ParaLang.Annotations
