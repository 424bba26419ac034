import Mathlib.Data.List.Induction
import ParaLang.Proofs.Annotations.Statements

/-! # Reading programs

A program is a list of lines: statements and the headers of blocks, each with the token that ends
it.  `Reads` says which token lists are programs and what annotation writes for them.  The lines
stand inside some open blocks, which a header adds to and a closing brace takes from. -/

namespace ParaLang.Annotations

open ParaLang.Grammar

/-! ## Blocks -/

/-- An open block: the last name of its header, the names before it from the inside out, and the
type of its members. -/
structure Block where
  name : String
  outer : List String
  memberType : Option String

def Block.names (block : Block) : List String :=
  block.name :: block.outer

def framesOfBlocks (blocks : List Block) : List Frame :=
  blocks.flatMap fun block => framesOf block.memberType block.names

/-- The block that a header opens. -/
def blockOf (header : Header NumberedToken) : Block where
  name := header.path.last.literal
  outer := (header.path.outer.map (·.1.literal)).reverse
  memberType := header.memberType.map (·.2.literal)

/-- What is written for the brace of a block. -/
def blockToken (block : Block) (brace : NumberedToken) : AnnotatedToken :=
  { brace.inRole .blockOpen with
    literal := formatPath block.names.reverse, type := block.memberType }

/-! ## Programs -/

/-- The token lists that are programs inside some open blocks, up to their first end of input, and
what is written for them. -/
inductive Reads : List Block → List NumberedToken → List AnnotatedToken → Prop where
  | finish {statement place rest} : Sound statement → place.kind = .endOfInput →
      Reads [] (statement.leaves ++ place :: rest)
        (statementTokens [] statement ++ [place.inRole .endOfInput])
  | newline {blocks statement place rest output} : Sound statement → place.kind = .newline →
      Reads blocks rest output →
      Reads blocks (statement.leaves ++ place :: rest)
        (statementTokens (framesOfBlocks blocks) statement ++ place.inRole .newline :: output)
  | close {block blocks statement place rest output} : Sound statement →
      place.kind = .rightBrace → Reads blocks rest output →
      Reads (block :: blocks) (statement.leaves ++ place :: rest)
        (statementTokens (framesOfBlocks (block :: blocks)) statement ++
          place.inRole .blockClose :: output)
  | open_ {blocks header place rest output} : header.WellKinded NumberedToken.kind →
      place.kind = .leftBrace → Reads (blockOf header :: blocks) rest output →
      Reads blocks (header.leaves ++ place :: rest) (blockToken (blockOf header) place :: output)

/-! ## Headers -/

section Headers

variable {state : State} {passed rest : List NumberedToken} {brace : NumberedToken}

theorem headerLength?_header {header : Header NumberedToken}
    (kinds : header.WellKinded NumberedToken.kind) (isBrace : brace.kind = .leftBrace) :
    headerLength? (header.leaves ++ brace :: rest) = .ok (some header.leaves.length) := by
  obtain ⟨⟨outer, last⟩, arrow, memberType⟩ := header
  induction outer with
  | nil =>
    obtain ⟨⟨-, lastKind⟩, arrowKind, typeKinds⟩ := kinds
    simp only at lastKind arrowKind typeKinds
    cases memberType with
    | none =>
      simp [Header.leaves, Path.leaves, headerLength?, lastKind, arrowKind, isBrace]
    | some link =>
      obtain ⟨colonKind, typeKind⟩ := typeKinds link rfl
      simp [Header.leaves, Path.leaves, headerLength?, lastKind, arrowKind, colonKind, typeKind,
        isBrace]
  | cons link outer inductionHypothesis =>
    obtain ⟨pathKinds, closing⟩ := kinds
    obtain ⟨linked, pathKinds⟩ := Path.wellKinded_cons.mp pathKinds
    have kinds : Header.WellKinded NumberedToken.kind ⟨⟨outer, last⟩, arrow, memberType⟩ :=
      ⟨pathKinds, closing⟩
    obtain ⟨next, more, split, isName⟩ := Header.exists_first kinds
    have unfolded : Header.leaves ⟨⟨link :: outer, last⟩, arrow, memberType⟩ =
        link.1 :: link.2 :: Header.leaves ⟨⟨outer, last⟩, arrow, memberType⟩ := rfl
    have later := inductionHypothesis kinds
    rw [split] at later
    rw [unfolded, split]
    simp only [List.cons_append] at later ⊢
    rw [headerLength?_further linked isName, later]
    rfl

/-- A header is passed over up to its brace. -/
theorem walk_header {header : Header NumberedToken}
    (kinds : header.WellKinded NumberedToken.kind) (isBrace : brace.kind = .leftBrace)
    (atStart : AtLineStart state passed) :
    walk state passed 0 (header.leaves ++ brace :: rest) =
      walk state (header.leaves.reverse ++ passed) 0 (brace :: rest) := by
  have found := @headerLength?_header rest brace header kinds isBrace
  have startsLine : (passed.head?.map NumberedToken.kind).all endsStatement = true := by
    cases head : passed.head? with
    | none => rfl
    | some previous => exact atStart.apart previous head
  obtain ⟨first, more, split, firstKind⟩ := Header.exists_first kinds
  have stepped : step state passed first (more ++ brace :: rest) = .ok (state, more.length) := by
    rw [split] at found
    rw [step_identifier firstKind, readName_eq atStart.fresh.fitsName, startsLine,
      atStart.unassigned, ← List.cons_append, found]
    rfl
  rw [split, List.cons_append, walk_step (by simp [firstKind]) stepped, walk_skip]
  simp

/-- What stands before a line ends no path. -/
theorem pathNames_path {path : Path NumberedToken} (kinds : path.WellKinded NumberedToken.kind)
    (apart : ∀ previous ∈ passed.head?, previous.kind ≠ .arrow) :
    pathNames path.last ((path.outer.flatMap fun (name, arrow) => [name, arrow]).reverse ++ passed) =
      path.last.literal :: (path.outer.map (·.1.literal)).reverse := by
  obtain ⟨outer, last⟩ := path
  obtain ⟨links, -⟩ := kinds
  simp only at links ⊢
  induction outer using List.reverseRecOn generalizing last with
  | nil =>
    cases passed with
    | nil => rfl
    | cons previous passed =>
      have noArrow := apart previous rfl
      cases passed <;> simp [pathNames, noArrow]
  | append_singleton outer link inductionHypothesis =>
    obtain ⟨nameKind, arrowKind⟩ := links link (by simp)
    have later := inductionHypothesis link.1 fun link member => links link (by simp [member])
    simp [pathNames, nameKind, arrowKind, later]

theorem headerBefore?_untyped {arrow name : NumberedToken} (arrowKind : arrow.kind = .arrow)
    (nameKind : name.kind = .identifier) :
    headerBefore? (arrow :: name :: passed) = some (pathNames name passed, none) := by
  rcases passed with _ | ⟨before, _ | ⟨earlier, passed⟩⟩ <;>
    simp [headerBefore?, arrowKind, nameKind]

theorem headerBefore?_header {header : Header NumberedToken}
    (kinds : header.WellKinded NumberedToken.kind)
    (apart : ∀ previous ∈ passed.head?, previous.kind ≠ .arrow) :
    headerBefore? (header.leaves.reverse ++ passed) =
      some ((blockOf header).names, (blockOf header).memberType) := by
  obtain ⟨⟨outer, last⟩, arrow, memberType⟩ := header
  obtain ⟨pathKinds, arrowKind, typeKinds⟩ := kinds
  have names := pathNames_path pathKinds apart
  have lastKind := pathKinds.2
  simp only at names lastKind arrowKind typeKinds
  cases memberType with
  | none =>
    simp only [Header.leaves, Path.leaves, Option.map_none, Option.getD_none, List.reverse_append,
      List.reverse_cons, List.reverse_nil, List.nil_append, List.cons_append, List.append_assoc]
    rw [headerBefore?_untyped arrowKind lastKind, names]
    rfl
  | some link =>
    obtain ⟨colon, type⟩ := link
    obtain ⟨colonKind, typeKind⟩ := typeKinds (colon, type) rfl
    simp only at colonKind typeKind
    simp [Header.leaves, Path.leaves, headerBefore?, colonKind, typeKind, arrowKind, lastKind,
      blockOf, Block.names, names]

/-- Opening a block adds its frames. -/
theorem openBlock_header {header : Header NumberedToken}
    (kinds : header.WellKinded NumberedToken.kind)
    (apart : ∀ previous ∈ passed.head?, endsStatement previous.kind = true)
    {blocks : List Block} (framed : state.frames = framesOfBlocks blocks) :
    openBlock state (header.leaves.reverse ++ passed) brace =
      .ok ⟨blockToken (blockOf header) brace :: state.output,
        framesOfBlocks (blockOf header :: blocks), false, false, false⟩ := by
  have noArrow : ∀ previous ∈ passed.head?, previous.kind ≠ .arrow := by
    intro previous member
    exact kind_ne_of_test (apart previous member) rfl
  simp [openBlock, headerBefore?_header kinds noArrow, State.write, State.newStatement, blockToken,
    framesOfBlocks, framed]

/-- Closing a block takes its frames away. -/
theorem closeBlock_block {block : Block} {blocks : List Block}
    (framed : state.frames = framesOfBlocks (block :: blocks)) :
    closeBlock state brace =
      .ok ⟨brace.inRole .blockClose :: state.output, framesOfBlocks blocks, false, false, false⟩ := by
  have inner (names : List String) (frames : List Frame) :
      (names.map (fun name => (⟨name, none, false⟩ : Frame)) ++ frames).dropWhile (!·.ownsBrace) =
        frames.dropWhile (!·.ownsBrace) := by
    induction names with
    | nil => rfl
    | cons name names inductionHypothesis => simp [inductionHypothesis]
  have outermost : (framesOfBlocks blocks).dropWhile (!·.ownsBrace) = framesOfBlocks blocks := by
    cases blocks with
    | nil => rfl
    | cons block blocks => simp [framesOfBlocks, Block.names, framesOf]
  have split : state.frames = ⟨block.name, block.memberType, true⟩ ::
      (block.outer.map (fun name => ⟨name, none, false⟩) ++ framesOfBlocks blocks) := by
    simp [framed, framesOfBlocks, Block.names, framesOf]
  simp [closeBlock, split, inner, outermost, State.write, State.newStatement]

end Headers

/-! ## Walking over a program -/

theorem atLineStart_written {frames : List Frame} {output : List AnnotatedToken}
    {last : AnnotatedToken} {passed : List NumberedToken} {place : NumberedToken}
    (boundary : last.role.isBoundary = true) (ends : endsStatement place.kind = true) :
    AtLineStart ⟨last :: output, frames, false, false, false⟩ (place :: passed) :=
  ⟨by simpa using boundary, by simp [ends], rfl, rfl, rfl⟩

/-- The step over a line end. -/
theorem step_newline {state : State} {written : List AnnotatedToken} {assigned named typed : Bool}
    {passed rest : List NumberedToken} {place : NumberedToken} (isNewline : place.kind = .newline) :
    step ⟨written, state.frames, assigned, named, typed⟩ passed place rest =
      .ok (⟨place.inRole .newline :: written, state.frames, false, false, false⟩, 0) := by
  simp [step, isNewline, State.write, State.newStatement]

/-- The step over the brace that closes a block. -/
theorem step_close {state : State} {written : List AnnotatedToken} {assigned named typed : Bool}
    {passed rest : List NumberedToken} {place : NumberedToken} {block : Block}
    {blocks : List Block} (isBrace : place.kind = .rightBrace)
    (framed : state.frames = framesOfBlocks (block :: blocks)) :
    step ⟨written, state.frames, assigned, named, typed⟩ passed place rest =
      .ok (⟨place.inRole .blockClose :: written, framesOfBlocks blocks, false, false, false⟩, 0) := by
  simp only [step, isBrace]
  rw [closeBlock_block (by exact framed)]
  rfl

/-- The step over the brace after a header. -/
theorem step_open {state : State} {passed rest : List NumberedToken} {place : NumberedToken}
    {header : Header NumberedToken} {blocks : List Block}
    (kinds : header.WellKinded NumberedToken.kind) (isBrace : place.kind = .leftBrace)
    (atStart : AtLineStart state passed) (framed : state.frames = framesOfBlocks blocks) :
    step state (header.leaves.reverse ++ passed) place rest =
      .ok (⟨blockToken (blockOf header) place :: state.output,
        framesOfBlocks (blockOf header :: blocks), false, false, false⟩, 0) := by
  simp only [step, isBrace]
  rw [openBlock_header kinds atStart.apart framed]
  rfl

/-- Annotation writes for a program what `Reads` says. -/
theorem walk_of_reads {blocks : List Block} {tokens : List NumberedToken}
    {written : List AnnotatedToken} (reads : Reads blocks tokens written) {state : State}
    {passed : List NumberedToken} (atStart : AtLineStart state passed)
    (framed : state.frames = framesOfBlocks blocks) :
    walk state passed 0 tokens = .ok (state.output.reverse ++ written) := by
  -- a line is walked over, then the token that ends it, and the rest goes on from a line start
  induction reads generalizing state passed with
  | @finish statement place rest sound isEnd =>
    obtain ⟨assigned, named, typed, walked⟩ :=
      @walk_statement state passed place rest statement sound atStart (by rw [isEnd]; rfl)
    rw [walked, walk, if_pos isEnd, finish]
    simp [framed, framesOfBlocks]
  | @newline blocks statement place rest written sound isNewline _ inductionHypothesis =>
    obtain ⟨assigned, named, typed, walked⟩ :=
      @walk_statement state passed place rest statement sound atStart (by rw [isNewline]; rfl)
    rw [walked, walk_step (by simp [isNewline]) (step_newline isNewline),
      inductionHypothesis (atLineStart_written rfl (by rw [isNewline]; rfl)) framed]
    simp [framed]
  | @close block blocks statement place rest written sound isBrace _ inductionHypothesis =>
    obtain ⟨assigned, named, typed, walked⟩ :=
      @walk_statement state passed place rest statement sound atStart (by rw [isBrace]; rfl)
    rw [walked, walk_step (by simp [isBrace]) (step_close isBrace framed),
      inductionHypothesis (atLineStart_written rfl (by rw [isBrace]; rfl)) (by exact rfl)]
    simp [framed]
  | @open_ blocks header place rest written kinds isBrace _ inductionHypothesis =>
    rw [walk_header kinds isBrace atStart,
      walk_step (by simp [isBrace]) (step_open kinds isBrace atStart framed),
      inductionHypothesis (atLineStart_written rfl (by rw [isBrace]; rfl)) (by exact rfl)]
    simp

theorem walk_program {tokens : List NumberedToken} {written : List AnnotatedToken}
    (reads : Reads [] tokens written) : walk {} [] 0 tokens = .ok written :=
  walk_of_reads reads ⟨by simp, by simp, rfl, rfl, rfl⟩ rfl

end ParaLang.Annotations
