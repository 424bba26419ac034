import ParaLang.Proofs.Annotations.Qualification

/-! # Blocks are shorthand

A program means the same as the program without blocks: annotation accepts that one too, and what
a run reads of the tokens written for the two is the same. -/

namespace ParaLang.Annotations

open ParaLang.Grammar
open ParaLang.AnnotatedToken (essence)
open NumberedToken (ofToken)

/-! ## Kinds -/

section Kinds

variable {names : List String}

theorem qualifiedPath_wellKinded {path : Path Token} (kinds : path.WellKinded Token.kind) :
    (qualifiedPath names path).WellKinded Token.kind := by
  refine ⟨?_, kinds.2⟩
  intro link member
  rcases List.mem_append.mp member with inNames | inPath
  · obtain ⟨name, -, rfl⟩ := List.mem_map.mp inNames
    exact ⟨rfl, rfl⟩
  · exact kinds.1 link inPath

/-- The kinds of a segment fit and no name of it is both mutable and constant. -/
def Fits (segment : Segment Token) : Prop :=
  segment.WellKinded Token.kind ∧ segment.Compatible Token.kind

theorem qualifiedSegment_fits {segment : Segment Token} (fits : Fits segment) :
    Fits (qualifiedSegment names segment) := by
  cases segment with
  | empty | literal token => exact fits
  | name definition => exact ⟨⟨qualifiedPath_wellKinded fits.1.1, fits.1.2⟩, fits.2⟩

theorem qualifiedOperand_wellKinded {operand : Operand Token}
    (kinds : operand.WellKinded Token.kind) :
    (qualifiedOperand names operand).WellKinded Token.kind := by
  cases operand with
  | literal token => exact kinds
  | reference path => exact qualifiedPath_wellKinded kinds

theorem qualifiedValue_wellKinded {value : RightHandSide Token}
    (kinds : value.WellKinded Token.kind) :
    (qualifiedValue names value).WellKinded Token.kind := by
  cases value with
  | single operand => exact qualifiedOperand_wellKinded kinds
  | expression first more => exact kinds

theorem qualifiedBinding_wellKinded {binding : Binding Token}
    (kinds : binding.WellKinded Token.kind) :
    (qualifiedBinding names binding).WellKinded Token.kind := by
  refine ⟨kinds.1, qualifiedValue_wellKinded kinds.2.1, ?_⟩
  intro link member
  obtain ⟨link, inside, rfl⟩ := List.mem_map.mp member
  refine ⟨(kinds.2.2 link inside).1, fun operand within => ?_⟩
  obtain ⟨original, among, rfl⟩ := Option.mem_map.mp within
  exact qualifiedOperand_wellKinded ((kinds.2.2 link inside).2 original among)

theorem typedSegment_fits {equals : Token} {type : Option String} {segment : Segment Token}
    (fits : Fits segment) : Fits (typedSegment equals type segment) := by
  cases segment with
  | empty | literal token => exact fits
  | name definition =>
    obtain ⟨path, modifiers, clause⟩ := definition
    cases clause with
    | some clause => exact fits
    | none =>
      obtain ⟨⟨pathKinds, modifierKinds, -⟩, compatible⟩ := fits
      refine ⟨⟨pathKinds, modifierKinds, fun clause member => ?_⟩, ?_⟩
      · obtain ⟨type, -, rfl⟩ := Option.mem_map.mp member
        exact ⟨rfl, by simp [Modifiers], rfl, by simp [Modifiers]⟩
      · cases type <;>
          simpa [Segment.Compatible, Definition.allModifiers, typedSegment] using compatible

/-- A change that keeps a property of segments keeps it of all segments of a statement. -/
theorem changeLast_all {change : Segment Token → Segment Token} {property : Segment Token → Prop}
    (keeps : ∀ segment, property segment → property (change segment))
    {first : Segment Token} {more : List (Token × Segment Token)} (ofFirst : property first)
    (ofMore : ∀ link ∈ more, link.1.kind = .question ∧ property link.2) :
    property (changeLast change first more).1 ∧
      ∀ link ∈ (changeLast change first more).2, link.1.kind = .question ∧ property link.2 := by
  induction more generalizing first with
  | nil => exact ⟨keeps first ofFirst, by simp [changeLast]⟩
  | cons link more inductionHypothesis =>
    obtain ⟨isQuestion, ofSegment⟩ := ofMore link (by simp)
    obtain ⟨changedFirst, changedMore⟩ := inductionHypothesis ofSegment fun link member =>
      ofMore link (by simp [member])
    refine ⟨ofFirst, ?_⟩
    simp only [changeLast, List.forall_mem_cons]
    exact ⟨⟨isQuestion, changedFirst⟩, changedMore⟩

theorem qualifiedStatement_fits {around : Surroundings} {statement : Statement Token}
    (kinds : statement.WellKinded Token.kind) (compatible : statement.Compatible Token.kind) :
    (qualifiedStatement around statement).WellKinded Token.kind ∧
      (qualifiedStatement around statement).Compatible Token.kind := by
  obtain ⟨first, more, binding⟩ := statement
  obtain ⟨firstKinds, moreKinds, bindingKinds⟩ := kinds
  obtain ⟨firstCompatible, moreCompatible⟩ := compatible
  have firstFits := @qualifiedSegment_fits around.names first ⟨firstKinds, firstCompatible⟩
  have moreFits : ∀ link ∈ more.map fun link => (link.1, qualifiedSegment around.names link.2),
      link.1.kind = .question ∧ Fits link.2 := by
    intro link member
    obtain ⟨link, inside, rfl⟩ := List.mem_map.mp member
    exact ⟨(moreKinds link inside).1,
      qualifiedSegment_fits ⟨(moreKinds link inside).2, moreCompatible link inside⟩⟩
  cases binding with
  | none =>
    exact ⟨⟨firstFits.1, fun link member => ⟨(moreFits link member).1, (moreFits link member).2.1⟩,
      by simp [qualifiedStatement]⟩, firstFits.2, fun link member => (moreFits link member).2.2⟩
  | some binding =>
    obtain ⟨typedFirst, typedMore⟩ :=
      @changeLast_all (typedSegment binding.equals around.memberType) Fits
        (fun _ => typedSegment_fits) _ _ firstFits moreFits
    refine ⟨⟨typedFirst.1, fun link member => ⟨(typedMore link member).1,
      (typedMore link member).2.1⟩, ?_⟩, typedFirst.2, fun link member =>
      (typedMore link member).2.2⟩
    intro other member
    obtain rfl : qualifiedBinding around.names binding = other := Option.some.inj member
    exact qualifiedBinding_wellKinded (bindingKinds binding rfl)

/-! ## Literals -/

/-- Only tokens of paths are put in front of tokens. -/
theorem mem_of_mem_qualify {linked : Bool} {run : List Token} {token : Token}
    (member : token ∈ qualify names linked run) (isLiteral : token.kind.isLiteral = true) :
    token ∈ run := by
  induction run generalizing linked with
  | nil => exact member
  | cons head run inductionHypothesis =>
    simp only [qualify, List.mem_append, List.mem_cons] at member
    rcases member with inserted | rfl | later
    · split at inserted
      · obtain ⟨name, -, inside⟩ := List.mem_flatMap.mp inserted
        simp only [List.mem_cons, List.not_mem_nil, or_false] at inside
        rcases inside with rfl | rfl <;> simp [nameLink, TokenKind.isLiteral] at isLiteral
      · cases inserted
    · exact List.mem_cons_self
    · exact List.mem_cons_of_mem head (inductionHypothesis later)

theorem mem_of_mem_qualifyRun {around : Surroundings} {run : List Token} {token : Token}
    (member : token ∈ qualifyRun around run) (isLiteral : token.kind.isLiteral = true) :
    token ∈ run := by
  have inBefore {other : Token} (inside : other ∈ run.takeWhile (·.kind != .equals)) :
      other ∈ run := List.takeWhile_subset _ inside
  simp only [qualifyRun] at member
  split at member
  · exact inBefore (mem_of_mem_qualify member isLiteral)
  · rename_i equals after split
    have inRest {other : Token} (inside : other ∈ equals :: after) : other ∈ run := by
      rw [← split] at inside
      exact List.dropWhile_subset _ inside
    simp only [List.mem_append, List.mem_cons] at member
    rcases member with (inside | inserted) | rfl | inValue | inspected
    · exact inBefore (mem_of_mem_qualify inside isLiteral)
    · obtain ⟨type, -, inside⟩ := List.mem_flatMap.mp inserted
      simp only [List.mem_cons, List.not_mem_nil, or_false] at inside
      rcases inside with rfl | rfl <;> simp [typeLink, TokenKind.isLiteral] at isLiteral
    · exact inRest List.mem_cons_self
    · refine inRest (List.mem_cons_of_mem _ (List.takeWhile_subset (·.kind != .question) ?_))
      unfold qualifyValue at inValue
      split at inValue
      · exact inValue
      · exact mem_of_mem_qualify inValue isLiteral
    · exact inRest (List.mem_cons_of_mem _
        (List.dropWhile_subset _ (mem_of_mem_qualify inspected isLiteral)))

end Kinds

/-! ## What is written -/

/-- The surroundings that some open blocks make. -/
def surroundings (frames : List Frame) : Surroundings :=
  ⟨frames.reverse.map Frame.name, frames.findSome? Frame.memberType⟩

section Written

variable (frames : List Frame)

theorem essence_qualifiedPath (path : Path Token) (last : AnnotatedToken) :
    (pathTokens [] ((qualifiedPath (surroundings frames).names path).map ofToken) last).map
      essence = (pathTokens frames (path.map ofToken) last).map essence := by
  simp [pathTokens, spliced, State.blockPath, qualifiedPath, Grammar.Path.map, linkTokens, surroundings,
    List.flatMap_map, List.map_flatMap, AnnotatedToken.essence, NumberedToken.inRole,
    Role.isBoundary, AnnotatedToken.isTextless, ofToken]
  rw [← List.map_reverse, List.flatMap_map]
  rfl

theorem essence_qualifiedSegment (segment : Segment Token) :
    (segmentTokens [] ((qualifiedSegment (surroundings frames).names segment).map ofToken)).map
      essence = (segmentTokens frames (segment.map ofToken)).map essence := by
  cases segment with
  | empty | literal token => rfl
  | name definition =>
    simp only [qualifiedSegment, Segment.map, segmentTokens, definitionTokens, List.map_append]
    exact congrArg (· ++ _) (essence_qualifiedPath frames definition.path _)

theorem essence_qualifiedOperand (operand : Operand Token) :
    (operandTokens [] ((qualifiedOperand (surroundings frames).names operand).map ofToken)).map
      essence = (operandTokens frames (operand.map ofToken)).map essence := by
  cases operand with
  | literal token => rfl
  | reference path => exact essence_qualifiedPath frames path _

theorem essence_qualifiedValue (value : RightHandSide Token) :
    (valueTokens [] ((qualifiedValue (surroundings frames).names value).map ofToken)).map
      essence = (valueTokens frames (value.map ofToken)).map essence := by
  cases value with
  | single operand => exact essence_qualifiedOperand frames operand
  | expression first more => rfl

theorem essence_qualifiedMore (more : List (Token × Segment Token)) :
    (moreTokens [] (more.map fun link =>
      (ofToken link.1, (qualifiedSegment (surroundings frames).names link.2).map ofToken))).map
      essence = (moreTokens frames (more.map fun link =>
        (ofToken link.1, link.2.map ofToken))).map essence := by
  simp only [moreTokens, List.flatMap_map, List.map_flatMap, List.map_cons,
    essence_qualifiedSegment]

theorem essence_qualifiedInspected (inspected : List (Token × Option (Operand Token))) :
    (inspectedTokens [] (inspected.map fun link => (ofToken link.1, link.2.map fun operand =>
      (qualifiedOperand (surroundings frames).names operand).map ofToken))).map essence =
      (inspectedTokens frames (inspected.map fun link =>
        (ofToken link.1, link.2.map (Operand.map ofToken)))).map essence := by
  simp only [inspectedTokens, List.flatMap_map, List.map_flatMap, List.map_cons]
  congr 1
  funext link
  cases link.2 with
  | none => rfl
  | some operand => simp [essence_qualifiedOperand]

/-- The tokens of the type that an `=` takes over. -/
theorem essence_typedSegment (equals : Token) (type : Option String) (segment : Segment Token) :
    (segmentTokens [] ((typedSegment equals type segment).map ofToken)).map essence =
      (segmentTokens [] (segment.map ofToken)).map essence ++
        (if segment.isName && !segment.isTyped then type else none).toList.map fun type =>
          (typeToken (ofToken equals) type).essence := by
  cases segment with
  | empty | literal token => simp [typedSegment, Segment.isName]
  | name definition =>
    obtain ⟨path, modifiers, clause⟩ := definition
    cases clause with
    | some clause => simp [typedSegment, Segment.isTyped]
    | none =>
      cases type with
      | none => simp [typedSegment, Segment.isTyped]
      | some type =>
        simp [typedSegment, Segment.isTyped, Segment.isName, Segment.map, Definition.map,
          TypeClause.map, segmentTokens, definitionTokens, clauseTokens, Definition.allModifiers]
        rfl

theorem essence_changeLast {change : Segment Token → Segment Token} {added : List AnnotatedToken}
    {first : Segment Token} {more : List (Token × Segment Token)}
    (adds : (segmentTokens [] ((change (lastSegment first more)).map ofToken)).map essence =
      (segmentTokens [] ((lastSegment first more).map ofToken)).map essence ++ added) :
    (segmentTokens [] ((changeLast change first more).1.map ofToken)).map essence ++
        (moreTokens [] ((changeLast change first more).2.map fun link =>
          (ofToken link.1, link.2.map ofToken))).map essence =
      (segmentTokens [] (first.map ofToken)).map essence ++
        (moreTokens [] (more.map fun link =>
          (ofToken link.1, link.2.map ofToken))).map essence ++ added := by
  induction more generalizing first with
  | nil => simpa [changeLast, moreTokens] using adds
  | cons link more inductionHypothesis =>
    rw [lastSegment_cons] at adds
    have later := inductionHypothesis adds
    simp only [moreTokens] at later
    simp [changeLast, moreTokens, later]

theorem inheritedTokens_none (target : Segment NumberedToken) (equals : NumberedToken) :
    inheritedTokens [] target equals = [] := by
  simp [inheritedTokens]

theorem essence_inherited (target : Segment Token) (equals : Token) :
    (inheritedTokens frames (target.map ofToken) (ofToken equals)).map essence =
      (if target.isName && !target.isTyped then (surroundings frames).memberType
        else none).toList.map fun type => (typeToken (ofToken equals) type).essence := by
  simp only [inheritedTokens, isName_map, isTyped_map, surroundings]
  split
  · cases frames.findSome? Frame.memberType <;> rfl
  · rfl

/-- A statement in blocks and the same statement outside of them read alike. -/
theorem essence_qualifiedStatement (statement : Statement Token) :
    (statementTokens [] ((qualifiedStatement (surroundings frames) statement).map ofToken)).map
      essence = (statementTokens frames (statement.map ofToken)).map essence := by
  obtain ⟨first, more, binding⟩ := statement
  have qualifiedMore := essence_qualifiedMore frames more
  cases binding with
  | none =>
    simpa [statementTokens, qualifiedStatement, Statement.map, essence_qualifiedSegment,
      Function.comp_def] using qualifiedMore
  | some binding =>
    obtain ⟨equals, value, inspected⟩ := binding
    have qualifiedInspected := essence_qualifiedInspected frames inspected
    have typed := @essence_changeLast
      (typedSegment equals (surroundings frames).memberType) _
      (qualifiedSegment (surroundings frames).names first)
      (more.map fun link => (link.1, qualifiedSegment (surroundings frames).names link.2))
      (essence_typedSegment equals (surroundings frames).memberType _)
    have inherited := essence_inherited frames (lastSegment first more) equals
    simp only [lastSegment_qualified, isName_qualifiedSegment, isTyped_qualifiedSegment,
      ← inherited, essence_qualifiedSegment, List.map_map, Function.comp_def,
      qualifiedMore] at typed
    simp only [statementTokens, qualifiedStatement, Statement.map, Option.map_some,
      Option.getD_some, List.map_append, typed, bindingTokens, inheritedTokens_none,
      List.nil_append, List.map_cons, qualifiedBinding, Binding.map, essence_qualifiedValue]
    have target := lastSegment_map ofToken first more
    simp only [Statement.target, target, List.append_assoc]
    simpa [Function.comp_def] using qualifiedInspected

end Written

/-! ## Programs -/

/-- A statement can be written outside of its blocks. -/
theorem exists_qualified (frames : List Frame) {statement : Statement NumberedToken}
    (sound : Sound statement) (count : Nat) :
    ∃ qualified : Statement NumberedToken,
      qualified.leaves = NumberedToken.ofTokens count
        (qualifyRun (surroundings frames) (statement.leaves.map NumberedToken.token)) ∧
      Sound qualified ∧
      (statementTokens [] qualified).map essence =
        (statementTokens frames statement).map essence := by
  obtain ⟨kinds, compatible, readable⟩ := sound
  have plainKinds := (wellKinded_forgotten keepsText_token).mpr kinds
  have run := qualifyRun_leaves (surroundings frames) plainKinds
  rw [Statement.leaves_map] at run
  obtain ⟨qualifiedKinds, qualifiedCompatible⟩ := @qualifiedStatement_fits (surroundings frames) _
    plainKinds ((compatible_forgotten keepsText_token).mpr compatible)
  have qualifiedReadable : ∀ token ∈ (qualifiedStatement (surroundings frames)
      (statement.map NumberedToken.token)).leaves, token.kind.isLiteral = true →
      ∃ value, literalValue (ofToken token) = .ok value := by
    intro token member isLiteral
    rw [← run] at member
    exact (readable_iff keepsText_token).mp readable token (mem_of_mem_qualifyRun member isLiteral)
      isLiteral
  obtain ⟨qualified, leaves, sound, mapped⟩ := exists_placed keepsText_token qualifiedKinds
    qualifiedCompatible qualifiedReadable
    (NumberedToken.map_token_ofTokens count _ |>.trans run)
  refine ⟨qualified, leaves, sound, ?_⟩
  rw [← essence_statementTokens keepsText_token, mapped, essence_qualifiedStatement,
    essence_statementTokens keepsText_token]

/-- The surroundings outside of each open block, from the inside out. -/
def outerSurroundings : List Block → List Surroundings
  | [] => []
  | _ :: blocks => surroundings (framesOfBlocks blocks) :: outerSurroundings blocks

theorem names_path {path : Path NumberedToken} (kinds : path.WellKinded NumberedToken.kind) :
    ((path.leaves.map NumberedToken.token).filter (·.kind == .identifier)).map Token.literal =
      path.outer.map (·.1.literal) ++ [path.last.literal] := by
  obtain ⟨outer, last⟩ := path
  obtain ⟨links, lastKind⟩ := kinds
  simp only at links lastKind
  have lastName : last.token.kind = .identifier := lastKind
  induction outer with
  | nil => simp [Path.leaves, lastName, NumberedToken.literal]
  | cons link outer inductionHypothesis =>
    have nameKind : link.1.token.kind = .identifier := (links link (by simp)).1
    have arrowKind : link.2.token.kind = .arrow := (links link (by simp)).2
    have later := inductionHypothesis fun link member => links link (by simp [member])
    simp only [Path.leaves] at later
    simpa [Path.leaves, nameKind, arrowKind, NumberedToken.literal] using later

theorem names_header {header : Header NumberedToken}
    (kinds : header.WellKinded NumberedToken.kind) :
    ((header.leaves.map NumberedToken.token).filter (·.kind == .identifier)).map Token.literal =
      (blockOf header).names.reverse := by
  obtain ⟨path, arrow, memberType⟩ := header
  obtain ⟨pathKinds, arrowKind, typeKinds⟩ := kinds
  have names := names_path pathKinds
  have isArrow : arrow.token.kind = .arrow := arrowKind
  have shown : path.outer.map (·.1.literal) ++ [path.last.literal] =
      (blockOf ⟨path, arrow, memberType⟩).names.reverse := by
    simp [blockOf, Block.names]
  rw [← shown, ← names]
  cases memberType with
  | none => simp [Header.leaves, isArrow]
  | some link =>
    have colonKind : link.1.token.kind = .colon := (typeKinds link rfl).1
    have typeKind : link.2.token.kind = .typeName := (typeKinds link rfl).2
    simp [Header.leaves, isArrow, colonKind, typeKind]

theorem memberType_header {header : Header NumberedToken}
    (kinds : header.WellKinded NumberedToken.kind) :
    ((header.leaves.map NumberedToken.token).find? (·.kind == .typeName)).map Token.literal =
      (blockOf header).memberType := by
  obtain ⟨path, arrow, memberType⟩ := header
  obtain ⟨pathKinds, arrowKind, typeKinds⟩ := kinds
  have isArrow : arrow.token.kind = .arrow := arrowKind
  have typeless : (path.leaves.map NumberedToken.token).find? (·.kind == .typeName) = none := by
    rw [List.find?_eq_none]
    intro token member
    obtain ⟨numbered, among, rfl⟩ := List.mem_map.mp member
    have kind : numbered.token.kind = .identifier ∨ numbered.token.kind = .arrow :=
      Path.kind_leaves pathKinds numbered among
    rcases kind with isName | isArrow
    · simp [isName]
    · simp [isArrow]
  cases memberType with
  | none => simp [Header.leaves, isArrow, typeless, blockOf]
  | some link =>
    have colonKind : link.1.token.kind = .colon := (typeKinds link rfl).1
    have typeKind : link.2.token.kind = .typeName := (typeKinds link rfl).2
    simp [Header.leaves, isArrow, typeless, blockOf, colonKind, typeKind, NumberedToken.literal]

theorem framesOfBlocks_nil : framesOfBlocks [] = [] := rfl

theorem surroundings_framesOf (block : Block) (blocks : List Block) :
    surroundings (framesOfBlocks (block :: blocks)) =
      ⟨(surroundings (framesOfBlocks blocks)).names ++ block.names.reverse,
        block.memberType.or (surroundings (framesOfBlocks blocks)).memberType⟩ := by
  have split : framesOfBlocks (block :: blocks) = ⟨block.name, block.memberType, true⟩ ::
      (block.outer.map (fun name => ⟨name, none, false⟩) ++ framesOfBlocks blocks) := by
    simp [framesOfBlocks, Block.names, framesOf]
  have silent : (block.outer.map fun name => (⟨name, none, false⟩ : Frame)).findSome?
      Frame.memberType = none := by
    simp [List.findSome?_eq_none_iff]
  rw [split, surroundings, surroundings]
  simp only [List.findSome?_cons, List.findSome?_append, silent, Option.none_or]
  cases block.memberType <;> simp [Block.names, Function.comp_def]

/-- Entering a block adds what its header says. -/
theorem surroundings_enter {header : Header NumberedToken}
    (kinds : header.WellKinded NumberedToken.kind) (blocks : List Block) :
    (surroundings (framesOfBlocks blocks)).enter (header.leaves.map NumberedToken.token) =
      surroundings (framesOfBlocks (blockOf header :: blocks)) := by
  rw [surroundings_framesOf, Surroundings.enter, names_header kinds, memberType_header kinds]

theorem lines_numbered {run : List NumberedToken} (inside : ∀ token ∈ run, inLine token.kind = true)
    {place : NumberedToken} (cuts : inLine place.kind = false) (rest : List NumberedToken) :
    lines [] ((run ++ place :: rest).map NumberedToken.token) =
      ⟨run.map NumberedToken.token, place.token⟩ :: lines [] (rest.map NumberedToken.token) := by
  have insideRun : ∀ token ∈ run.map NumberedToken.token, inLine token.kind = true := by
    intro token member
    obtain ⟨numbered, among, rfl⟩ := List.mem_map.mp member
    exact inside numbered among
  rw [List.map_append, List.map_cons, lines_append insideRun cuts, List.nil_append]

/-- Without blocks, the tokens of a program are those of a program that reads alike. -/
theorem reads_unfolded {blocks : List Block} {tokens : List NumberedToken}
    {written : List AnnotatedToken} (reads : Reads blocks tokens written) (count : Nat) :
    ∃ flat, Reads [] (NumberedToken.ofTokens count
      (unfoldLines (surroundings (framesOfBlocks blocks)) (outerSurroundings blocks)
        (lines [] (tokens.map NumberedToken.token)))) flat ∧
      flat.map essence = written.map essence := by
  -- behind a line end the tokens are numbered from the start again, whatever the count was
  induction reads generalizing count with
  | @finish statement place rest sound isEnd =>
    obtain ⟨qualified, leaves, qualifiedSound, same⟩ := exists_qualified [] sound count
    have boundary : place.token.kind = .endOfInput := isEnd
    rw [lines_numbered (Statement.inLine sound.kinds) (by rw [isEnd]; rfl)]
    simp only [unfoldLines, boundary]
    rw [NumberedToken.ofTokens_append]
    simp only [framesOfBlocks, List.flatMap_nil, ← leaves]
    refine ⟨_, Reads.finish qualifiedSound boundary, ?_⟩
    simp only [List.map_append, same]
    rfl
  | @newline blocks statement place rest written sound isNewline _ inductionHypothesis =>
    obtain ⟨qualified, leaves, qualifiedSound, same⟩ :=
      exists_qualified (framesOfBlocks blocks) sound count
    have boundary : place.token.kind = .newline := isNewline
    obtain ⟨flat, readsFlat, sameRest⟩ := inductionHypothesis 0
    rw [lines_numbered (Statement.inLine sound.kinds) (by rw [isNewline]; rfl)]
    simp only [unfoldLines, boundary]
    rw [NumberedToken.ofTokens_append, ← leaves, NumberedToken.ofTokens, if_pos boundary]
    refine ⟨_, Reads.newline qualifiedSound boundary readsFlat, ?_⟩
    simp only [List.map_append, List.map_cons, sameRest, framesOfBlocks_nil, same]
    rfl
  | @close block blocks statement place rest written sound isBrace _ inductionHypothesis =>
    obtain ⟨qualified, leaves, qualifiedSound, same⟩ :=
      exists_qualified (framesOfBlocks (block :: blocks)) sound count
    have boundary : place.token.kind = .rightBrace := isBrace
    obtain ⟨flat, readsFlat, sameRest⟩ := inductionHypothesis 0
    rw [lines_numbered (Statement.inLine sound.kinds) (by rw [isBrace]; rfl)]
    simp only [unfoldLines, boundary, outerSurroundings, List.headD_cons, List.tail_cons]
    rw [NumberedToken.ofTokens_append, ← leaves, NumberedToken.ofTokens, if_pos (by rfl)]
    refine ⟨_, Reads.newline qualifiedSound rfl readsFlat, ?_⟩
    simp only [List.map_append, List.map_cons, sameRest, framesOfBlocks_nil, same]
    rfl
  | @open_ blocks header place rest written kinds isBrace _ inductionHypothesis =>
    have boundary : place.token.kind = .leftBrace := isBrace
    obtain ⟨flat, readsFlat, sameRest⟩ := inductionHypothesis 0
    rw [lines_numbered (Header.inLine kinds) (by rw [isBrace]; rfl)]
    simp only [unfoldLines, boundary, surroundings_enter kinds]
    rw [NumberedToken.ofTokens, if_pos (by rfl)]
    refine ⟨_, Reads.newline sound_empty rfl readsFlat, ?_⟩
    rw [List.map_append, List.map_cons, sameRest]
    rfl

/-! ## The end of the input -/

/-- The end of the input makes the last line. -/
theorem getLast?_lines {run tokens : List Token}
    (last : tokens.getLast?.any (·.kind = .endOfInput) = true) :
    (lines run tokens).getLast?.any (·.boundary.kind = .endOfInput) = true := by
  induction tokens generalizing run with
  | nil => cases last
  | cons token tokens inductionHypothesis =>
    cases tokens with
    | nil =>
      have isEnd : token.kind = .endOfInput := by simpa using last
      simp [lines, isEnd, inLine]
    | cons next tokens =>
      rw [List.getLast?_cons_cons] at last
      have later := fun run => @inductionHypothesis run last
      rw [lines]
      split
      · exact later _
      · cases rest : lines [] (next :: tokens) with
        | nil => simpa [rest] using later []
        | cons line rest' =>
          rw [List.getLast?_cons_cons, ← rest]
          exact later []

/-- The last line keeps the end of the input. -/
theorem getLast?_unfoldLines {around : Surroundings} {outer : List Surroundings}
    {cut : List Line} (last : cut.getLast?.any (·.boundary.kind = .endOfInput) = true) :
    (unfoldLines around outer cut).getLast?.any (·.kind = .endOfInput) = true := by
  induction cut generalizing around outer with
  | nil => cases last
  | cons line cut inductionHypothesis =>
    obtain ⟨run, boundary⟩ := line
    cases cut with
    | nil =>
      have isEnd : boundary.kind = .endOfInput := by simpa using last
      simp [unfoldLines, isEnd]
    | cons next cut =>
      rw [List.getLast?_cons_cons] at last
      have later := fun around outer => @inductionHypothesis around outer last
      rw [unfoldLines]
      split
      · exact ends_behind [] _ (later _ _)
      · exact ends_behind _ _ (later _ _)
      · exact ends_behind _ _ (later _ _)

/-! ## Shorthand -/

/-- Blocks are shorthand.  Annotation accepts a program without its blocks too, and a run of it
leaves the same tree and the same findings, or fails for the same cause and path. -/
theorem alike_withoutBlocks {tokens : List Token} {written : List AnnotatedToken}
    (accepted : annotate tokens = .ok written) :
    ∃ flat, annotate (withoutBlocks tokens) = .ok flat ∧ ∀ verbosity otherVerbosity,
      Alike Outcome.SameUpToPlaces (interpret verbosity written).outcome
        (interpret otherVerbosity flat).outcome := by
  obtain ⟨last, reads⟩ := annotate_eq_ok_iff.mp accepted
  obtain ⟨flat, readsFlat, same⟩ := reads_unfolded reads 0
  rw [NumberedToken.map_token_ofTokens] at readsFlat
  refine ⟨flat, annotate_eq_ok_iff.mpr ⟨getLast?_unfoldLines (getLast?_lines last), readsFlat⟩, ?_⟩
  intro verbosity otherVerbosity
  exact alike_interpret same.symm verbosity otherVerbosity

/-- `g -> : int { x = 7 ? x }` is shorthand for `g -> x : int = 7 ? g -> x`. -/
theorem alike_withoutBlocks_typed :
    let tokens : List Token := [⟨.identifier, "g", 1, 1⟩, ⟨.arrow, "->", 1, 3⟩,
      ⟨.colon, ":", 1, 6⟩, ⟨.typeName, "int", 1, 8⟩, ⟨.leftBrace, "\x7b", 1, 12⟩,
      ⟨.identifier, "x", 1, 14⟩, ⟨.equals, "=", 1, 16⟩, ⟨.int, "7", 1, 18⟩,
      ⟨.question, "?", 1, 20⟩, ⟨.identifier, "x", 1, 22⟩, ⟨.rightBrace, "\x7d", 1, 24⟩,
      ⟨.endOfInput, "", 1, 25⟩]
    (withoutBlocks tokens).map Token.literal =
      ["\n", "g", "->", "x", ":", "int", "=", "7", "?", "g", "->", "x", "\n", ""] ∧
    ∃ written flat, annotate tokens = .ok written ∧ annotate (withoutBlocks tokens) = .ok flat ∧
      Alike Outcome.SameUpToPlaces (interpret 0 written).outcome (interpret 0 flat).outcome := by
  intro tokens
  obtain ⟨written, accepted⟩ : ∃ written, annotate tokens = .ok written := ⟨_, rfl⟩
  obtain ⟨flat, flatAccepted, alike⟩ := alike_withoutBlocks accepted
  exact ⟨rfl, written, flat, accepted, flatAccepted, alike 0 0⟩

end ParaLang.Annotations
