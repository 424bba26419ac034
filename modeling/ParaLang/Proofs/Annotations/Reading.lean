import ParaLang.Proofs.Annotations.Items

/-! # Reading statements

What annotation writes for the tree of a statement, as a function of the tree and of the open
blocks, and the proof that walking over the leaves of the tree writes just that.  Each lemma
walks over one part of a statement and says in which state the walk goes on. -/

namespace ParaLang.Annotations

open ParaLang.Grammar

/-! ## What is written -/

/-- The path of the open blocks in front of a token. -/
def spliced (frames : List Frame) (place : NumberedToken) : List AnnotatedToken :=
  State.blockPath { frames := frames } place

def linkTokens (links : List (NumberedToken × NumberedToken)) : List AnnotatedToken :=
  links.flatMap fun (name, arrow) => [name.inRole .group, arrow.inRole .arrow]

/-- A path with the path of the open blocks in front of it. -/
def pathTokens (frames : List Frame) (path : Path NumberedToken) (last : AnnotatedToken) :
    List AnnotatedToken :=
  spliced frames path.first ++ linkTokens path.outer ++ [last]

def withModifiers (modifiers : List NumberedToken) (name : AnnotatedToken) : AnnotatedToken :=
  modifiers.foldl (fun name modifier => withModifier modifier.kind name) name

def clauseTokens (clause : Option (TypeClause NumberedToken)) : List AnnotatedToken :=
  clause.toList.map fun clause => typeToken clause.colon clause.type.literal

def definitionTokens (frames : List Frame) (definition : Definition NumberedToken) :
    List AnnotatedToken :=
  pathTokens frames definition.path
    (withModifiers definition.allModifiers (definition.path.last.inRole .identifier)) ++
    clauseTokens definition.clause

/-- A literal with its value; the null value stands in where there is none. -/
def readLiteralToken (token : NumberedToken) : AnnotatedToken :=
  literalToken token ((literalValue token).toOption.getD .null)

def segmentTokens (frames : List Frame) : Segment NumberedToken → List AnnotatedToken
  | .empty => []
  | .literal token => [readLiteralToken token]
  | .name definition => definitionTokens frames definition

def operandTokens (frames : List Frame) : Operand NumberedToken → List AnnotatedToken
  | .literal token => [readLiteralToken token]
  | .reference path => pathTokens frames path (path.last.inRole .lookup)

def valueTokens (frames : List Frame) : RightHandSide NumberedToken → List AnnotatedToken
  | .single operand => operandTokens frames operand
  | .expression first more =>
    [((expressionToken first more).toOption).getD (first.inRole .expression)]

def inspectedTokens (frames : List Frame)
    (inspected : List (NumberedToken × Option (Operand NumberedToken))) : List AnnotatedToken :=
  inspected.flatMap fun (question, operand) =>
    question.inRole .inspect :: (operand.map (operandTokens frames)).getD []

def moreTokens (frames : List Frame) (segments : List (NumberedToken × Segment NumberedToken)) :
    List AnnotatedToken :=
  segments.flatMap fun (question, segment) =>
    question.inRole .inspect :: segmentTokens frames segment

/-- The type that the innermost typed block gives to an untyped name in front of `=`. -/
def inheritedTokens (frames : List Frame) (target : Segment NumberedToken)
    (equals : NumberedToken) : List AnnotatedToken :=
  if target.isName && !target.isTyped then
    (frames.findSome? Frame.memberType).toList.map fun type =>
      { typeToken equals type with synthetic := true }
  else []

def bindingTokens (frames : List Frame) (target : Segment NumberedToken)
    (binding : Binding NumberedToken) : List AnnotatedToken :=
  inheritedTokens frames target binding.equals ++ binding.equals.inRole .assign ::
    (valueTokens frames binding.value ++ inspectedTokens frames binding.inspected)

def statementTokens (frames : List Frame) (statement : Statement NumberedToken) :
    List AnnotatedToken :=
  segmentTokens frames statement.first ++ moreTokens frames statement.more ++
    (statement.binding.map (bindingTokens frames statement.target)).getD []

/-! ## Steps of the walk -/

section Steps

variable {state next : State} {passed rest : List NumberedToken} {place : NumberedToken}

theorem walk_step {count : Nat} (goesOn : place.kind ≠ .endOfInput)
    (stepped : step state passed place rest = .ok (next, count)) :
    walk state passed 0 (place :: rest) = walk next (place :: passed) count rest := by
  simp only [walk, if_neg goesOn, stepped, Result.ok_bind]

theorem walk_skip (run : List NumberedToken) :
    walk state passed run.length (run ++ rest) = walk state (run.reverse ++ passed) 0 rest := by
  rw [walk_read, List.take_left, List.drop_left]

/-- A step that reads nothing ahead. -/
theorem single_eq_ok_iff {read : Result State} {count : Nat} :
    (do return (← read, 0)) = (.ok (next, count) : Result (State × Nat)) ↔
      read = .ok next ∧ count = 0 := by
  cases read with
  | error failure => simp
  | ok other => simp [eq_comm]

theorem step_identifier (kind : place.kind = .identifier) :
    step state passed place rest = readName state passed place rest := by
  simp only [step, kind]

theorem step_arrow (kind : place.kind = .arrow) :
    step state passed place rest = (·, 0) <$> readArrow state place := by
  simp only [step, kind]
  rfl

theorem step_literal (kind : place.kind.isLiteral = true) :
    step state passed place rest = (·, 0) <$> readLiteral state passed place := by
  cases actual : place.kind <;> simp_all [step, TokenKind.isLiteral] <;> rfl

theorem step_modifier (kind : place.kind.isModifier = true) :
    step state passed place rest = (·, 0) <$> readModifier state place := by
  cases actual : place.kind <;> simp_all [step, TokenKind.isModifier] <;> rfl

end Steps

/-! ## Paths -/

/-- A name may stand here: it does not follow another name or a literal, and if it starts a path
the statement has no name yet. -/
structure FitsName (state : State) (passed : List NumberedToken) : Prop where
  open_ : (state.modifiable && state.startsPath) = false
  apart : ∀ previous ∈ passed.head?, previous.kind ≠ .identifier ∧ previous.kind.isLiteral = false

/-- No block header starts at a name that stands here. -/
def NoHeader (state : State) (passed tokens : List NumberedToken) : Prop :=
  (passed.head?.map NumberedToken.kind).all endsStatement = true → state.assigned = false →
    headerLength? tokens = .ok none

theorem readName_eq {state : State} {passed rest : List NumberedToken} {name : NumberedToken}
    (fits : FitsName state passed) :
    readName state passed name rest = do
      let header ←
        if (passed.head?.map NumberedToken.kind).all endsStatement && !state.assigned then
          headerLength? (name :: rest)
        else pure none
      match header with
      | some length => return (state, length - 1)
      | none => return (writeName state name (← nameRole state rest), 0) := by
  have notAdjacent : ¬ (passed.head?.map NumberedToken.kind = some .identifier ∨
      (state.modifiable = true ∧ state.startsPath = true)) := by
    rintro (adjacent | named)
    · obtain ⟨previous, member, kind⟩ := Option.map_eq_some_iff.mp adjacent
      exact (fits.apart previous member).1 kind
    · have opened := fits.open_
      rw [named.1, named.2] at opened
      cases opened
  have notAfterLiteral : (passed.head?.map NumberedToken.kind).any TokenKind.isLiteral = false := by
    cases head : passed.head? with
    | none => rfl
    | some previous => simpa using (fits.apart previous head).2
  exact (if_neg notAdjacent).trans (if_neg (by simp [notAfterLiteral]))

theorem readName_fits {state : State} {passed rest : List NumberedToken} {name : NumberedToken}
    (fits : FitsName state passed) (noHeader : NoHeader state passed (name :: rest)) :
    readName state passed name rest = do
      let role ← nameRole state rest
      return (writeName state name role, 0) := by
  rw [readName_eq fits]
  split
  · rename_i atStart
    simp only [Bool.and_eq_true, Bool.not_eq_true'] at atStart
    rw [noHeader atStart.1 atStart.2]
    rfl
  · rfl

section Headers

variable {name arrow after : NumberedToken}

/-- A header starts with a name and an arrow. -/
theorem headerLength?_unlinked (unlinked : ¬ (name.kind = .identifier ∧ arrow.kind = .arrow))
    (rest : List NumberedToken) : headerLength? (name :: arrow :: rest) = .ok none := by
  cases rest <;> exact if_neg unlinked

/-- A header with a longer path goes on at its next name. -/
theorem headerLength?_further (linked : name.kind = .identifier ∧ arrow.kind = .arrow)
    (isName : after.kind = .identifier) (rest : List NumberedToken) :
    headerLength? (name :: arrow :: after :: rest) =
      Option.map (· + 2) <$> headerLength? (after :: rest) := by
  rw [headerLength?.eq_def]
  simp only [linked, isName, and_self, if_true]
  cases headerLength? (after :: rest) <;> rfl

theorem headerLength?_other (noBrace : after.kind ≠ .leftBrace) (noColon : after.kind ≠ .colon)
    (noName : after.kind ≠ .identifier) (rest : List NumberedToken) :
    headerLength? (name :: arrow :: after :: rest) = .ok none := by
  unfold headerLength?
  cases kind : after.kind <;> simp_all

end Headers

theorem headerLength?_path {path : Path NumberedToken} (kinds : path.WellKinded NumberedToken.kind)
    {follow : NumberedToken} (noArrow : follow.kind ≠ .arrow) (rest : List NumberedToken) :
    headerLength? (path.leaves ++ follow :: rest) = .ok none := by
  obtain ⟨outer, last⟩ := path
  induction outer with
  | nil => exact headerLength?_unlinked (by simp [noArrow]) rest
  | cons link outer inductionHypothesis =>
    obtain ⟨name, arrow⟩ := link
    obtain ⟨linked, kinds⟩ := Path.wellKinded_cons.mp kinds
    obtain ⟨after, more, split, isName⟩ := Path.exists_first kinds
    have later := inductionHypothesis kinds
    rw [split] at later
    rw [Path.leaves_cons, split]
    simp only [List.cons_append] at later ⊢
    rw [headerLength?_further linked isName, later]
    rfl

/-- The role of the last name of a path. -/
def lastRole (state : State) : Role :=
  if state.assigned then .lookup else .identifier

/-- What a first name writes in front of itself. -/
def splicedAt (state : State) (place : NumberedToken) : List AnnotatedToken :=
  if state.startsPath then spliced state.frames place else []

theorem writeName_group (state : State) (place : NumberedToken) :
    writeName state place .group =
      { state with
        output := place.inRole .group :: ((splicedAt state place).reverse ++ state.output) } := by
  have other : (Role.group == Role.identifier) = false := rfl
  cases starts : state.startsPath <;>
    simp [writeName, starts, State.write, State.writeBlockPath, splicedAt, spliced,
      State.blockPath, other]

theorem writeName_last (state : State) (place : NumberedToken) :
    writeName state place (lastRole state) =
      { state with
        output := place.inRole (lastRole state) ::
          ((splicedAt state place).reverse ++ state.output)
        named := state.named || !state.assigned } := by
  have own : (lastRole state == Role.identifier) = !state.assigned := by
    cases assigned : state.assigned <;> simp [lastRole, assigned]
  cases starts : state.startsPath <;>
    simp [writeName, starts, State.write, State.writeBlockPath, splicedAt, spliced,
      State.blockPath, own]

section Paths

variable {state : State} {passed : List NumberedToken}

theorem walk_link {name arrow after : NumberedToken} {rest : List NumberedToken}
    (nameKind : name.kind = .identifier) (arrowKind : arrow.kind = .arrow)
    (afterKind : after.kind = .identifier) (fits : FitsName state passed)
    (noHeader : NoHeader state passed (name :: arrow :: after :: rest)) :
    walk state passed 0 (name :: arrow :: after :: rest) =
      walk ((writeName state name .group).write (arrow.inRole .arrow)) (arrow :: name :: passed) 0
        (after :: rest) := by
  have nameStep : step state passed name (arrow :: after :: rest) =
      .ok (writeName state name .group, 0) := by
    rw [step_identifier nameKind, readName_fits fits noHeader]
    simp [nameRole, arrowKind, afterKind]
  have arrowStep : step (writeName state name .group) (name :: passed) arrow (after :: rest) =
      .ok ((writeName state name .group).write (arrow.inRole .arrow), 0) := by
    rw [step_arrow arrowKind]
    simp [readArrow, writeName, State.write]
  rw [walk_step (by simp [nameKind]) nameStep, walk_step (by simp [arrowKind]) arrowStep]

theorem walk_lastName {name follow : NumberedToken} {rest : List NumberedToken}
    (nameKind : name.kind = .identifier) (noArrow : follow.kind ≠ .arrow)
    (fits : FitsName state passed) (noHeader : NoHeader state passed (name :: follow :: rest)) :
    walk state passed 0 (name :: follow :: rest) =
      walk (writeName state name (lastRole state)) (name :: passed) 0 (follow :: rest) := by
  have nameStep : step state passed name (follow :: rest) =
      .ok (writeName state name (lastRole state), 0) := by
    rw [step_identifier nameKind, readName_fits fits noHeader]
    simp [nameRole, noArrow, lastRole]
  rw [walk_step (by simp [nameKind]) nameStep]

theorem fitsName_afterArrow {arrow : NumberedToken} (arrowKind : arrow.kind = .arrow)
    (inPath : state.startsPath = false) : FitsName state (arrow :: passed) where
  open_ := by simp [inPath]
  apart := by simp [arrowKind, TokenKind.isLiteral]

theorem noHeader_afterArrow {arrow : NumberedToken} (arrowKind : arrow.kind = .arrow)
    (tokens : List NumberedToken) : NoHeader state (arrow :: passed) tokens := by
  intro atStart
  simp [arrowKind, endsStatement] at atStart

/-- A path goes on after an arrow. -/
theorem walk_pathTail {path : Path NumberedToken} (kinds : path.WellKinded NumberedToken.kind)
    {follow : NumberedToken} (noArrow : follow.kind ≠ .arrow) {rest : List NumberedToken}
    {arrow : NumberedToken} (arrowKind : arrow.kind = .arrow)
    (inPath : state.startsPath = false) :
    walk state (arrow :: passed) 0 (path.leaves ++ follow :: rest) =
      walk { state with
          output := (linkTokens path.outer ++ [path.last.inRole (lastRole state)]).reverse ++
            state.output
          named := state.named || !state.assigned }
        (path.leaves.reverse ++ arrow :: passed) 0 (follow :: rest) := by
  obtain ⟨outer, last⟩ := path
  induction outer generalizing state passed arrow with
  | nil =>
    have fits := @fitsName_afterArrow state passed arrow arrowKind inPath
    simp only [Path.leaves_nil, List.singleton_append]
    rw [walk_lastName kinds.2 noArrow fits (noHeader_afterArrow arrowKind _)]
    simp [writeName_last, splicedAt, inPath, linkTokens]
  | cons link outer inductionHypothesis =>
    obtain ⟨name, innerArrow⟩ := link
    obtain ⟨⟨nameKind, innerArrowKind⟩, kinds⟩ := Path.wellKinded_cons.mp kinds
    obtain ⟨after, more, split, afterKind⟩ := Path.exists_first kinds
    have fits := @fitsName_afterArrow state passed arrow arrowKind inPath
    have later := @inductionHypothesis
      ((writeName state name .group).write (innerArrow.inRole .arrow)) (name :: arrow :: passed)
      innerArrow innerArrowKind rfl kinds
    rw [split, List.cons_append] at later
    rw [Path.leaves_cons, split, List.cons_append, List.cons_append, List.cons_append,
      walk_link nameKind innerArrowKind afterKind fits (noHeader_afterArrow arrowKind _), later,
      ← split]
    simp [writeName_group, splicedAt, inPath, State.write, linkTokens, lastRole]

/-- Walking over a path from its first name on. -/
theorem walk_path {path : Path NumberedToken} (kinds : path.WellKinded NumberedToken.kind)
    {follow : NumberedToken} (noArrow : follow.kind ≠ .arrow) {rest : List NumberedToken}
    (starts : state.startsPath = true) (fits : FitsName state passed) :
    walk state passed 0 (path.leaves ++ follow :: rest) =
      walk { state with
          output :=
            (pathTokens state.frames path (path.last.inRole (lastRole state))).reverse ++
              state.output
          named := state.named || !state.assigned }
        (path.leaves.reverse ++ passed) 0 (follow :: rest) := by
  have noHeader : NoHeader state passed (path.leaves ++ follow :: rest) :=
    fun _ _ => headerLength?_path kinds noArrow rest
  obtain ⟨outer, last⟩ := path
  cases outer with
  | nil =>
    simp only [Path.leaves_nil, List.singleton_append]
    rw [walk_lastName kinds.2 noArrow fits noHeader]
    simp [writeName_last, splicedAt, starts, linkTokens, pathTokens, Path.first]
  | cons link outer =>
    -- only the first name takes the names of the open blocks along
    obtain ⟨name, arrow⟩ := link
    obtain ⟨⟨nameKind, arrowKind⟩, kinds⟩ := Path.wellKinded_cons.mp kinds
    obtain ⟨after, more, split, afterKind⟩ := Path.exists_first kinds
    have tail := @walk_pathTail ((writeName state name .group).write (arrow.inRole .arrow))
      (name :: passed) ⟨outer, last⟩ kinds follow noArrow rest arrow arrowKind rfl
    rw [split, List.cons_append] at tail
    rw [Path.leaves_cons, split, List.cons_append, List.cons_append, List.cons_append] at noHeader ⊢
    rw [walk_link nameKind arrowKind afterKind fits noHeader, tail, ← split]
    simp [writeName_group, splicedAt, starts, State.write, linkTokens, lastRole, pathTokens,
      Path.first]

end Paths

/-! ## Modifiers and types -/

@[simp] theorem withModifiers_nil (name : AnnotatedToken) : withModifiers [] name = name := rfl

@[simp] theorem withModifiers_cons (modifier : NumberedToken) (modifiers : List NumberedToken)
    (name : AnnotatedToken) :
    withModifiers (modifier :: modifiers) name =
      withModifiers modifiers (withModifier modifier.kind name) := rfl

theorem withModifiers_append (before after : List NumberedToken) (name : AnnotatedToken) :
    withModifiers (before ++ after) name = withModifiers after (withModifiers before name) := by
  simp [withModifiers]

@[simp] theorem role_withModifier (kind : TokenKind) (name : AnnotatedToken) :
    (withModifier kind name).role = name.role := by
  cases kind <;> rfl

theorem withModifier_eq (kind : TokenKind) (name : AnnotatedToken) :
    withModifier kind name =
      { name with
        mutable := kind == .muta || name.mutable
        temp := kind == .temp || name.temp
        const := kind == .const || name.const } := by
  -- a token may hold tokens, so it has no eta rule
  cases name
  cases kind <;> rfl

theorem withModifiers_eq (modifiers : List NumberedToken) (name : AnnotatedToken) :
    withModifiers modifiers name =
      { name with
        mutable := modifiers.any (·.kind == .muta) || name.mutable
        temp := modifiers.any (·.kind == .temp) || name.temp
        const := modifiers.any (·.kind == .const) || name.const } := by
  induction modifiers generalizing name with
  | nil => cases name; rfl
  | cons modifier modifiers inductionHypothesis =>
    rw [withModifiers_cons, inductionHypothesis, withModifier_eq]
    simp [Bool.or_assoc, Bool.or_left_comm]

@[simp] theorem role_withModifiers (modifiers : List NumberedToken) (name : AnnotatedToken) :
    (withModifiers modifiers name).role = name.role := by
  rw [withModifiers_eq]

theorem mutable_withModifiers (modifiers : List NumberedToken) (name : AnnotatedToken) :
    (withModifiers modifiers name).mutable =
      (name.mutable || modifiers.any (·.kind == .muta)) := by
  rw [withModifiers_eq]
  exact Bool.or_comm _ _

theorem const_withModifiers (modifiers : List NumberedToken) (name : AnnotatedToken) :
    (withModifiers modifiers name).const =
      (name.const || modifiers.any (·.kind == .const)) := by
  rw [withModifiers_eq]
  exact Bool.or_comm _ _

/-- A name that would be mutable and constant at once. -/
def Conflicting (name : AnnotatedToken) : Prop :=
  name.mutable = true ∧ name.const = true

instance (name : AnnotatedToken) : Decidable (Conflicting name) :=
  inferInstanceAs (Decidable (_ ∧ _))

/-- No later modifier takes a conflict back. -/
theorem Conflicting.stays {name : AnnotatedToken} (conflict : Conflicting name)
    (modifiers : List NumberedToken) : Conflicting (withModifiers modifiers name) := by
  rw [Conflicting, mutable_withModifiers, const_withModifiers, conflict.1, conflict.2]
  exact ⟨rfl, rfl⟩

theorem not_conflicting_iff {name : NumberedToken} {modifiers : List NumberedToken} :
    ¬ Conflicting (withModifiers modifiers (name.inRole .identifier)) ↔
      Compatible NumberedToken.kind modifiers := by
  rw [Conflicting, mutable_withModifiers, const_withModifiers]
  exact Iff.rfl

/-- The newest token is a name, and modifiers may still change it. -/
structure LatestName (state : State) (name : AnnotatedToken) (earlier : List AnnotatedToken) :
    Prop where
  modifiable : state.modifiable = true
  written : state.output = name :: earlier
  isName : name.role = .identifier

section Modifiers

variable {state : State} {name : AnnotatedToken} {earlier : List AnnotatedToken}

theorem LatestName.modified (latest : LatestName state name earlier)
    (modifiers : List NumberedToken) :
    LatestName { state with output := withModifiers modifiers name :: earlier }
      (withModifiers modifiers name) earlier :=
  ⟨latest.modifiable, rfl, by rw [role_withModifiers, latest.isName]⟩

theorem LatestName.readModifier_eq (latest : LatestName state name earlier)
    (modifier : NumberedToken) :
    readModifier state modifier =
      if Conflicting (withModifiers [modifier] name) then
        refuse (.conflictingModifiers name.literal) modifier
      else .ok { state with output := withModifiers [modifier] name :: earlier } := by
  rw [withModifiers_cons, withModifiers_nil]
  simp only [readModifier, latest.modifiable, if_true, latest.written, modifyLatest,
    latest.isName]
  by_cases conflict : Conflicting (withModifier modifier.kind name)
  · rw [if_pos conflict]
    simp only [Conflicting] at conflict
    rw [if_pos conflict]
    rfl
  · rw [if_neg conflict]
    simp only [Conflicting] at conflict
    rw [if_neg conflict]
    rfl

/-- Walking over the modifiers of a name. -/
theorem walk_modifiers {modifiers : List NumberedToken} (latest : LatestName state name earlier)
    (kinds : Modifiers NumberedToken.kind modifiers)
    (compatible : ¬ Conflicting (withModifiers modifiers name))
    (passed rest : List NumberedToken) :
    walk state passed 0 (modifiers ++ rest) =
      walk { state with output := withModifiers modifiers name :: earlier }
        (modifiers.reverse ++ passed) 0 rest := by
  induction modifiers generalizing state name passed with
  | nil =>
    obtain ⟨output, frames, assigned, named, typed⟩ := state
    have written : output = name :: earlier := latest.written
    simp [written]
  | cons modifier modifiers inductionHypothesis =>
    have isModifier := kinds modifier (by simp)
    have fits : ¬ Conflicting (withModifiers [modifier] name) :=
      fun early => compatible (early.stays modifiers)
    have stepped : step state passed modifier (modifiers ++ rest) =
        .ok ({ state with output := withModifiers [modifier] name :: earlier }, 0) := by
      rw [step_modifier isModifier, latest.readModifier_eq, if_neg fits]
      rfl
    have later := inductionHypothesis (latest.modified [modifier])
      (fun other member => kinds other (by simp [member])) compatible (modifier :: passed)
    rw [List.cons_append, walk_step (kind_ne_of_test isModifier rfl) stepped, later]
    simp

/-- The modifiers in a type clause are those of the name in front of it. -/
theorem typeClause_modifiers {modifiers : List NumberedToken}
    (latest : LatestName state name earlier) (kinds : Modifiers NumberedToken.kind modifiers)
    (compatible : ¬ Conflicting (withModifiers modifiers name))
    (type : Option String) (rest : List NumberedToken) :
    typeClause state type (modifiers ++ rest) =
      (fun (state, type, count) => (state, type, count + modifiers.length)) <$>
        typeClause { state with output := withModifiers modifiers name :: earlier } type rest := by
  induction modifiers generalizing state name with
  | nil =>
    obtain ⟨output, frames, assigned, named, typed⟩ := state
    obtain rfl : output = name :: earlier := latest.written
    simp
  | cons modifier modifiers inductionHypothesis =>
    have isModifier := kinds modifier (by simp)
    have noType : modifier.kind ≠ .typeName := kind_ne_of_test isModifier rfl
    have fits : ¬ Conflicting (withModifiers [modifier] name) :=
      fun early => compatible (early.stays modifiers)
    have later := inductionHypothesis (latest.modified [modifier])
      (fun other member => kinds other (by simp [member])) compatible
    rw [List.cons_append, typeClause, if_neg noType, if_pos isModifier, latest.readModifier_eq,
      if_neg fits, Result.ok_bind, later]
    simp only [withModifiers_cons, withModifiers_nil]
    cases typeClause { state with output := _ } type rest with
    | error failure => rfl
    | ok read => simp [Nat.add_assoc]

end Modifiers

/-! ## Segments -/

/-- Tokens that end a segment or an operand. -/
def endsSegment : TokenKind → Bool
  | .newline | .rightBrace | .endOfInput | .question | .equals => true
  | _ => false

theorem not_modifier_of_endsSegment {kind : TokenKind} (ends : endsSegment kind = true) :
    kind.isModifier = false := by
  cases kind <;> simp_all [endsSegment, TokenKind.isModifier]

theorem typeClause_end {state : State} {type : Option String} {follow : NumberedToken}
    (noModifier : follow.kind.isModifier = false) (noType : follow.kind ≠ .typeName)
    (rest : List NumberedToken) :
    typeClause state type (follow :: rest) = .ok (state, type, 0) := by
  rw [typeClause, if_neg noType, noModifier, if_neg (by simp)]

section Definitions

variable {state : State} {follow : NumberedToken} {rest : List NumberedToken}

/-- What the modifiers in a type clause do, and that reading goes on behind it. -/
theorem typeClause_clause {clause : TypeClause NumberedToken}
    (kinds : clause.WellKinded NumberedToken.kind) {name : AnnotatedToken}
    {earlier : List AnnotatedToken} (latest : LatestName state name earlier)
    (compatible : ¬ Conflicting (withModifiers (clause.before ++ clause.after) name)) :
    typeClause state none (clause.before ++ clause.type :: (clause.after ++ rest)) =
      (fun (state, type, count) =>
          (state, type, count + (clause.before ++ clause.type :: clause.after).length)) <$>
        typeClause { state with
            output := withModifiers (clause.before ++ clause.after) name :: earlier }
          (some clause.type.literal) rest := by
  obtain ⟨colon, before, type, after⟩ := clause
  obtain ⟨-, beforeKinds, isType, afterKinds⟩ := kinds
  simp only at isType compatible ⊢
  rw [withModifiers_append] at compatible ⊢
  have compatibleBefore : ¬ Conflicting (withModifiers before name) :=
    fun early => compatible (early.stays after)
  have later := typeClause_modifiers (latest.modified before) afterKinds compatible
    (some type.literal) rest
  rw [typeClause_modifiers latest beforeKinds compatibleBefore, typeClause, if_pos isType,
    if_neg (by simp), later]
  cases typeClause { state with output := _ } (some type.literal) rest with
  | error failure => rfl
  | ok read =>
    obtain ⟨other, found, count⟩ := read
    simp [Nat.add_assoc, Nat.add_comm, Nat.add_left_comm]

theorem walk_clause {clause : TypeClause NumberedToken} {name : AnnotatedToken}
    {earlier : List AnnotatedToken} (kinds : clause.WellKinded NumberedToken.kind)
    (latest : LatestName state name earlier) (untyped : state.typed = false)
    (compatible : ¬ Conflicting (withModifiers (clause.before ++ clause.after) name))
    (noModifier : follow.kind.isModifier = false) (noType : follow.kind ≠ .typeName)
    (passed : List NumberedToken) :
    walk state passed 0 (clause.leaves ++ follow :: rest) =
      walk { state with
          output := typeToken clause.colon clause.type.literal ::
            withModifiers (clause.before ++ clause.after) name :: earlier
          typed := true }
        (clause.leaves.reverse ++ passed) 0 (follow :: rest) := by
  have read := @typeClause_clause state (follow :: rest) clause kinds name earlier latest compatible
  rw [typeClause_end noModifier noType] at read
  -- the colon is handled together with the clause behind it, which is then skipped
  have colonStep : step state passed clause.colon
      (clause.before ++ clause.type :: (clause.after ++ follow :: rest)) =
        .ok ({ state with
            output := typeToken clause.colon clause.type.literal ::
              withModifiers (clause.before ++ clause.after) name :: earlier
            typed := true },
          (clause.before ++ clause.type :: clause.after).length) := by
    simp only [step, kinds.1]
    rw [readColon, if_pos (by simp [latest.modifiable, untyped]), read]
    simp [State.write]
  have skipped := @walk_skip
    { state with
      output := typeToken clause.colon clause.type.literal ::
        withModifiers (clause.before ++ clause.after) name :: earlier
      typed := true } (clause.colon :: passed) (follow :: rest)
    (clause.before ++ clause.type :: clause.after)
  simp only [TypeClause.leaves, List.cons_append, List.append_assoc] at skipped ⊢
  rw [walk_step (by simp [kinds.1]) colonStep, skipped]
  simp

/-- Walking over a name with its modifiers and its type. -/
theorem walk_definition {definition : Definition NumberedToken}
    (kinds : definition.WellKinded NumberedToken.kind)
    (compatible : Compatible NumberedToken.kind definition.allModifiers)
    {passed : List NumberedToken} (starts : state.startsPath = true)
    (fits : FitsName state passed) (unassigned : state.assigned = false)
    (untyped : state.typed = false) (ends : endsSegment follow.kind = true) :
    walk state passed 0 (definition.leaves ++ follow :: rest) =
      walk { state with
          output := (definitionTokens state.frames definition).reverse ++ state.output
          named := true
          typed := definition.clause.isSome }
        (definition.leaves.reverse ++ passed) 0 (follow :: rest) := by
  obtain ⟨path, modifiers, clause⟩ := definition
  obtain ⟨pathKinds, modifierKinds, clauseKinds⟩ := kinds
  simp only at pathKinds modifierKinds clauseKinds
  have splitHead : ∃ next more, next.kind ≠ .arrow ∧
      modifiers ++ ((clause.map TypeClause.leaves).getD [] ++ follow :: rest) = next :: more := by
    cases modifiers with
    | cons modifier modifiers =>
      have isModifier := modifierKinds modifier (by simp)
      exact ⟨modifier, _, kind_ne_of_test isModifier rfl, rfl⟩
    | nil =>
      cases clause with
      | none => exact ⟨follow, rest, kind_ne_of_test ends rfl, rfl⟩
      | some clause =>
        refine ⟨clause.colon, _, ?_, rfl⟩
        rw [(clauseKinds clause rfl).1]
        simp
  obtain ⟨next, more, noArrow, split⟩ := splitHead
  have role : lastRole state = .identifier := by simp [lastRole, unassigned]
  simp only [Definition.leaves, List.append_assoc]
  rw [split, walk_path pathKinds noArrow starts fits, ← split,
    walk_modifiers ⟨by simp [State.modifiable, unassigned], by simp [pathTokens, role]; exact ⟨rfl, rfl⟩, rfl⟩
      modifierKinds (not_conflicting_iff.mpr (Compatible.left compatible))]
  cases clause with
  | none =>
    simp [definitionTokens, pathTokens, clauseTokens, Definition.allModifiers, unassigned,
      untyped]
  | some clause =>
    have together : withModifiers (clause.before ++ clause.after)
        (withModifiers modifiers (path.last.inRole .identifier)) =
        withModifiers (modifiers ++ (clause.before ++ clause.after))
          (path.last.inRole .identifier) := by
      rw [withModifiers_append modifiers]
    rw [Option.map_some, Option.getD_some,
      walk_clause (clauseKinds clause rfl)
        ⟨by simp [State.modifiable, unassigned], rfl, by simp⟩ (by exact untyped)
        (by rw [together]; exact not_conflicting_iff.mpr compatible)
        (not_modifier_of_endsSegment ends) (kind_ne_of_test ends rfl), together]
    simp [definitionTokens, pathTokens, clauseTokens, Definition.allModifiers, unassigned]

end Definitions

/-! ## Literals, segments and operands -/

/-- All literals in a run of tokens have a value. -/
def Readable (tokens : List NumberedToken) : Prop :=
  ∀ token ∈ tokens, token.kind.isLiteral = true → ∃ value, literalValue token = .ok value

theorem Readable.append {before after : List NumberedToken} :
    Readable (before ++ after) ↔ Readable before ∧ Readable after :=
  List.forall_mem_append

theorem Readable.cons {token : NumberedToken} (noLiteral : token.kind.isLiteral = false)
    {tokens : List NumberedToken} : Readable (token :: tokens) ↔ Readable tokens := by
  simp [Readable, noLiteral]

theorem Readable.segmentLeaves_cons {link : NumberedToken × Segment NumberedToken}
    (isQuestion : link.1.kind = .question) {more : List (NumberedToken × Segment NumberedToken)} :
    Readable (segmentLeaves (link :: more)) ↔
      Readable link.2.leaves ∧ Readable (segmentLeaves more) :=
  (Readable.cons (by rw [isQuestion]; rfl)).trans Readable.append

theorem Readable.operand {operand : Option (Operand NumberedToken)} :
    Readable ((operand.map Operand.leaves).getD []) ↔ ∀ inner ∈ operand, Readable inner.leaves := by
  cases operand <;> simp [Readable]

theorem Readable.inspectedLeaves_cons
    {link : NumberedToken × Option (Operand NumberedToken)} (isQuestion : link.1.kind = .question)
    {inspected : List (NumberedToken × Option (Operand NumberedToken))} :
    Readable (inspectedLeaves (link :: inspected)) ↔
      (∀ operand ∈ link.2, Readable operand.leaves) ∧ Readable (inspectedLeaves inspected) :=
  (Readable.cons (by rw [isQuestion]; rfl)).trans
    (Readable.append.trans (and_congr_left' Readable.operand))

theorem Readable.binding {binding : Binding NumberedToken}
    (isEquals : binding.equals.kind = .equals) :
    Readable binding.leaves ↔
      Readable binding.value.leaves ∧ Readable (inspectedLeaves binding.inspected) :=
  (Readable.cons (by rw [isEquals]; rfl)).trans Readable.append

/-- Tokens after which a segment or an operand starts. -/
def opensSegment : TokenKind → Bool
  | .newline | .leftBrace | .rightBrace | .question | .equals => true
  | _ => false

/-- A segment or an operand may start here. -/
structure Fresh (state : State) (passed : List NumberedToken) : Prop where
  starts : state.startsPath = true
  opened : ∀ previous ∈ passed.head?, opensSegment previous.kind = true
  unnamed : state.modifiable = false

section Segments

variable {state : State} {passed : List NumberedToken} {follow : NumberedToken}
  {rest : List NumberedToken}

theorem Fresh.fitsName (fresh : Fresh state passed) : FitsName state passed where
  open_ := by simp [fresh.unnamed]
  apart := by
    intro previous member
    have opened := fresh.opened previous member
    cases kind : previous.kind <;> simp_all [opensSegment, TokenKind.isLiteral]

theorem readLiteral_fresh {token : NumberedToken} (fresh : Fresh state passed) :
    readLiteral state passed token = state.write <$> valueToken token := by
  have notMisplaced : ¬ (passed.head?.map NumberedToken.kind = some .identifier ∨
      (passed.head?.map NumberedToken.kind).any TokenKind.isLiteral = true ∨
      state.modifiable = true) := by
    rintro (adjacent | literal | named)
    · obtain ⟨previous, member, kind⟩ := Option.map_eq_some_iff.mp adjacent
      exact (fresh.fitsName.apart previous member).1 kind
    · cases head : passed.head? with
      | none => simp [head] at literal
      | some previous =>
        rw [head, Option.map_some, Option.any_some, (fresh.fitsName.apart previous head).2] at literal
        cases literal
    · rw [fresh.unnamed] at named
      cases named
  simp only [readLiteral, if_neg notMisplaced]
  rfl

theorem walk_literal {token : NumberedToken} (isLiteral : token.kind.isLiteral = true)
    (readable : ∃ value, literalValue token = .ok value) (fresh : Fresh state passed) :
    walk state passed 0 (token :: rest) =
      walk (state.write (readLiteralToken token)) (token :: passed) 0 rest := by
  obtain ⟨value, read⟩ := readable
  have stepped : step state passed token rest = .ok (state.write (readLiteralToken token), 0) := by
    rw [step_literal isLiteral, readLiteral_fresh fresh, valueToken_of_literalValue read]
    simp [readLiteralToken, read, Except.toOption]
  have goesOn : token.kind ≠ .endOfInput := kind_ne_of_test isLiteral rfl
  rw [walk_step goesOn stepped]

/-- Walking over a segment in front of the `=`. -/
theorem walk_segment {segment : Segment NumberedToken}
    (kinds : segment.WellKinded NumberedToken.kind)
    (compatible : segment.Compatible NumberedToken.kind) (readable : Readable segment.leaves)
    (fresh : Fresh state passed) (unassigned : state.assigned = false)
    (unnamed : state.named = false) (untyped : state.typed = false)
    (ends : endsSegment follow.kind = true) :
    walk state passed 0 (segment.leaves ++ follow :: rest) =
      walk { state with
          output := (segmentTokens state.frames segment).reverse ++ state.output
          named := segment.isName
          typed := segment.isTyped }
        (segment.leaves.reverse ++ passed) 0 (follow :: rest) := by
  cases segment with
  | empty =>
    obtain ⟨output, frames, assigned, named, typed⟩ := state
    simp only at unnamed untyped
    subst unnamed untyped
    rfl
  | literal token =>
    have read := readable token (by simp [Segment.leaves]) kinds
    simp only [Segment.leaves, List.singleton_append]
    rw [walk_literal kinds read fresh]
    obtain ⟨output, frames, assigned, named, typed⟩ := state
    simp only at unnamed untyped
    subst unnamed untyped
    rfl
  | name definition =>
    exact walk_definition kinds compatible fresh.starts fresh.fitsName unassigned untyped ends

/-- Walking over an operand after the `=`. -/
theorem walk_operand {operand : Operand NumberedToken}
    (kinds : operand.WellKinded NumberedToken.kind) (readable : Readable operand.leaves)
    (fresh : Fresh state passed) (assigned : state.assigned = true)
    (noArrow : follow.kind ≠ .arrow) :
    walk state passed 0 (operand.leaves ++ follow :: rest) =
      walk { state with output := (operandTokens state.frames operand).reverse ++ state.output }
        (operand.leaves.reverse ++ passed) 0 (follow :: rest) := by
  cases operand with
  | literal token =>
    have read := readable token (by simp [Operand.leaves]) kinds
    simp only [Operand.leaves, List.singleton_append]
    rw [walk_literal kinds read fresh]
    rfl
  | reference path =>
    simp only [Operand.leaves]
    rw [walk_path kinds noArrow fresh.starts fresh.fitsName]
    simp [operandTokens, lastRole, assigned]

/-- A question mark closes a segment and opens the next one. -/
def State.question (state : State) (place : NumberedToken) : State :=
  { state.write (place.inRole .inspect) with named := false, typed := false }

theorem walk_question {place : NumberedToken} (isQuestion : place.kind = .question) :
    walk state passed 0 (place :: rest) = walk (state.question place) (place :: passed) 0 rest := by
  have stepped : step state passed place rest = .ok (state.question place, 0) := by
    simp [step, isQuestion, State.question]
  rw [walk_step (by simp [isQuestion]) stepped]

theorem fresh_question {place : NumberedToken} (isQuestion : place.kind = .question) :
    Fresh (state.question place) (place :: passed) where
  starts := rfl
  opened := by simp [isQuestion, opensSegment]
  unnamed := rfl

theorem endsSegment_question {place : NumberedToken} (isQuestion : place.kind = .question) :
    endsSegment place.kind = true := by
  rw [isQuestion]
  rfl

/-- Behind a segment stands the next question mark or what follows the segments. -/
theorem exists_behind_segment {more : List (NumberedToken × Segment NumberedToken)}
    (kinds : ∀ link ∈ more, link.1.kind = .question ∧ link.2.WellKinded NumberedToken.kind)
    (ends : endsSegment follow.kind = true) :
    ∃ next later, endsSegment next.kind = true ∧
      segmentLeaves more ++ follow :: rest = next :: later := by
  cases more with
  | nil => exact ⟨follow, rest, ends, rfl⟩
  | cons link more => exact ⟨link.1, _, endsSegment_question (kinds link (by simp)).1, rfl⟩

/-- Walking over a question mark and the operand that it inspects, if there is one. -/
theorem walk_questioned {question : NumberedToken} (isQuestion : question.kind = .question)
    {operand : Option (Operand NumberedToken)}
    (kinds : ∀ inner ∈ operand, inner.WellKinded NumberedToken.kind)
    (readable : ∀ inner ∈ operand, Readable inner.leaves) (assigned : state.assigned = true)
    (noArrow : follow.kind ≠ .arrow) :
    walk state passed 0 (question :: ((operand.map Operand.leaves).getD [] ++ follow :: rest)) =
      walk { state.question question with
          output := ((operand.map (operandTokens state.frames)).getD []).reverse ++
            (state.question question).output }
        (((operand.map Operand.leaves).getD []).reverse ++ question :: passed) 0
        (follow :: rest) := by
  rw [walk_question isQuestion]
  cases operand with
  | none => rfl
  | some operand =>
    exact walk_operand (kinds operand rfl) (readable operand rfl) (fresh_question isQuestion) assigned
      noArrow

/-- Some segments, each after a question mark, follow a segment. -/
theorem walk_more {current : Segment NumberedToken}
    {more : List (NumberedToken × Segment NumberedToken)}
    (kinds : ∀ link ∈ more, link.1.kind = .question ∧ link.2.WellKinded NumberedToken.kind)
    (compatible : ∀ link ∈ more, link.2.Compatible NumberedToken.kind)
    (readable : Readable (segmentLeaves more)) (unassigned : state.assigned = false)
    (named : state.named = current.isName) (typed : state.typed = current.isTyped)
    (ends : endsSegment follow.kind = true) :
    walk state passed 0 (segmentLeaves more ++ follow :: rest) =
      walk { state with
          output := (moreTokens state.frames more).reverse ++ state.output
          named := (lastSegment current more).isName
          typed := (lastSegment current more).isTyped }
        ((segmentLeaves more).reverse ++ passed) 0 (follow :: rest) := by
  induction more generalizing state passed current with
  | nil =>
    rw [lastSegment_nil, ← named, ← typed]
    rfl
  | cons link more inductionHypothesis =>
    obtain ⟨question, segment⟩ := link
    obtain ⟨isQuestion, segmentKinds⟩ := kinds (question, segment) (by simp)
    obtain ⟨segmentReadable, moreReadable⟩ := (Readable.segmentLeaves_cons isQuestion).mp readable
    obtain ⟨next, later, nextEnds, split⟩ := @exists_behind_segment follow rest more
      (fun link member => kinds link (by simp [member])) ends
    have unfolded : segmentLeaves ((question, segment) :: more) =
        question :: (segment.leaves ++ segmentLeaves more) := rfl
    have continued := @inductionHypothesis
      { state.question question with
        output := (segmentTokens state.frames segment).reverse ++ (state.question question).output
        named := segment.isName
        typed := segment.isTyped }
      (segment.leaves.reverse ++ question :: passed) segment
      (fun link member => kinds link (by simp [member]))
      (fun link member => compatible link (by simp [member])) moreReadable unassigned rfl rfl
    rw [unfolded, List.cons_append, List.append_assoc, split, walk_question isQuestion,
      walk_segment segmentKinds (compatible (question, segment) (by simp)) segmentReadable
        (fresh_question isQuestion) unassigned rfl rfl nextEnds, ← split]
    refine continued.trans ?_
    simp [State.question, State.write, moreTokens]

end Segments

end ParaLang.Annotations
