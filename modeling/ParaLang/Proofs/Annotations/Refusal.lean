import ParaLang.Proofs.Annotations.Programs

/-! # Refused segments

The walk over a list of tokens either fails or finds the next part of a statement in front of it.
Each lemma of this module says so for one part.  Failures are told apart by a predicate, so that
one analysis serves for "the walk fails" and for "the walk fails with a diagnostic". -/

namespace ParaLang.Annotations

open ParaLang.Grammar

/-! ## Failing runs -/

/-- A run that fails in an allowed way. -/
def Refused {α : Type} (allowed : Failure → Prop) (result : Result α) : Prop :=
  ∃ failure, result = .error failure ∧ allowed failure

/-- The failures that are diagnostics about the structure of a program. -/
def IsStructural : Failure → Prop
  | .diagnostic diagnostic => diagnostic.cause.stage = .structural
  | .fault _ => False

/-- A diagnostic about the structure of a program, or the fault of a number that cannot be read. -/
def IsRefusal (unreadable : Prop) : Failure → Prop
  | .diagnostic diagnostic => diagnostic.cause.stage = .structural
  | .fault fault => fault = .malformedNumber ∧ unreadable

theorem isRefusal_of_isStructural {unreadable : Prop} (failure : Failure)
    (structural : IsStructural failure) : IsRefusal unreadable failure := by
  cases failure with
  | diagnostic diagnostic => exact structural
  | fault fault => cases structural

/-- The token list has an end of input, and a literal without a value fails in an allowed way. -/
structure Bounded (allowed : Failure → Prop) (tokens : List NumberedToken) : Prop where
  ends : ∃ token ∈ tokens, token.kind = .endOfInput
  numbers : ∀ token ∈ tokens, ∀ failure, literalValue token = .error failure → allowed failure

section Failing

variable {α β : Type} {allowed : Failure → Prop}

theorem Refused.bind {first : Result α} (refused : Refused allowed first)
    (next : α → Result β) : Refused allowed (first >>= next) := by
  obtain ⟨failure, rfl, fits⟩ := refused
  exact ⟨failure, rfl, fits⟩

theorem Refused.map {first : Result α} (refused : Refused allowed first) (function : α → β) :
    Refused allowed (function <$> first) := by
  obtain ⟨failure, rfl, fits⟩ := refused
  exact ⟨failure, rfl, fits⟩

theorem refused_refuse (structural : ∀ failure, IsStructural failure → allowed failure)
    {cause : Cause} (stage : cause.stage = .structural) (place : NumberedToken) :
    Refused allowed (refuse cause place : Result α) :=
  ⟨_, rfl, structural _ stage⟩

theorem Bounded.ne_nil {tokens : List NumberedToken} (bounded : Bounded allowed tokens) :
    ∃ first rest, tokens = first :: rest := by
  obtain ⟨token, member, -⟩ := bounded.ends
  cases tokens with
  | nil => cases member
  | cons first rest => exact ⟨first, rest, rfl⟩

/-- What follows some tokens that do not end the input is bounded as well. -/
theorem Bounded.after {before rest : List NumberedToken}
    (bounded : Bounded allowed (before ++ rest))
    (goesOn : ∀ token ∈ before, token.kind ≠ .endOfInput) : Bounded allowed rest where
  ends := by
    obtain ⟨token, member, isEnd⟩ := bounded.ends
    rcases List.mem_append.mp member with inside | later
    · exact absurd isEnd (goesOn token inside)
    · exact ⟨token, later, isEnd⟩
  numbers := fun token member => bounded.numbers token (List.mem_append_right _ member)

theorem Bounded.tail {token : NumberedToken} {rest : List NumberedToken}
    (bounded : Bounded allowed (token :: rest)) (goesOn : token.kind ≠ .endOfInput) :
    Bounded allowed rest :=
  @Bounded.after allowed [token] rest bounded (by simpa using goesOn)

theorem goesOn_of_inLine {tokens : List NumberedToken}
    (inside : ∀ token ∈ tokens, inLine token.kind = true) :
    ∀ token ∈ tokens, token.kind ≠ .endOfInput :=
  fun token member => kind_ne_of_test (inside token member) rfl

theorem refused_step {state : State} {passed rest : List NumberedToken} {place : NumberedToken}
    (goesOn : place.kind ≠ .endOfInput) (refused : Refused allowed (step state passed place rest)) :
    Refused allowed (walk state passed 0 (place :: rest)) := by
  simp only [walk, if_neg goesOn]
  exact refused.bind _

end Failing

/-! ## Ends of segments -/

/-- Neither a name nor a literal can stand here: one has just been passed, or a name has been written
whose segment is not over. -/
def Blocked (state : State) (passed : List NumberedToken) : Prop :=
  (∃ previous ∈ passed.head?, previous.kind = .identifier ∨ previous.kind.isLiteral = true) ∨
    (state.modifiable = true ∧ state.startsPath = true)

section Segments

variable {allowed : Failure → Prop} (structural : ∀ failure, IsStructural failure → allowed failure)
  {state : State} {passed rest : List NumberedToken}

include structural

theorem refused_name {follow : NumberedToken} (isName : follow.kind = .identifier)
    (blocked : Blocked state passed) : Refused allowed (step state passed follow rest) := by
  rw [step_identifier isName, readName]
  rcases blocked with ⟨previous, member, previousName | isLiteral⟩ | ⟨named, starts⟩
  · rw [if_pos (.inl (by rw [Option.mem_def.mp member, Option.map_some, previousName]))]
    exact refused_refuse structural rfl follow
  · split
    · exact refused_refuse structural rfl follow
    · rw [if_pos (by rw [Option.mem_def.mp member]; simpa using isLiteral)]
      exact refused_refuse structural rfl follow
  · rw [if_pos (.inr ⟨named, starts⟩)]
    exact refused_refuse structural rfl follow

theorem refused_literal {follow : NumberedToken} (isLiteral : follow.kind.isLiteral = true)
    (blocked : Blocked state passed) : Refused allowed (step state passed follow rest) := by
  rw [step_literal isLiteral, readLiteral, if_pos]
  · exact Refused.map (refused_refuse structural rfl follow) _
  · rcases blocked with ⟨previous, member, isName | literal⟩ | ⟨named, -⟩
    · exact .inl (by rw [Option.mem_def.mp member, Option.map_some, isName])
    · exact .inr (.inl (by rw [Option.mem_def.mp member]; simpa using literal))
    · exact .inr (.inr named)

/-- After a complete segment only a token that ends it can follow. -/
theorem closes_or_refused {follow : NumberedToken}
    (blocked : follow.kind = .identifier ∨ follow.kind.isLiteral = true → Blocked state passed)
    (modifier : follow.kind.isModifier = true → state.modifiable = false)
    (colon : follow.kind = .colon → (state.modifiable && !state.typed) = false)
    (noGroup : ∀ last ∈ state.output.head?, last.role ≠ .group)
    (headless : headerBefore? passed = none) :
    Refused allowed (walk state passed 0 (follow :: rest)) ∨ endsSegment follow.kind = true := by
  by_cases ends : endsSegment follow.kind = true
  · exact .inr ends
  have goesOn : follow.kind ≠ .endOfInput := by
    intro isEnd
    simp [isEnd, endsSegment] at ends
  refine .inl (refused_step goesOn ?_)
  cases kind : follow.kind <;> rw [kind] at ends <;> simp only [endsSegment] at ends <;>
    try simp at ends
  case identifier => exact refused_name structural kind (blocked (.inl kind))
  case arrow =>
    rw [step_arrow kind]
    refine Refused.map ?_ _
    unfold readArrow
    split
    · exact refused_refuse structural rfl follow
    · rename_i last _ output
      rw [if_neg (noGroup last (by rw [output]; rfl))]
      exact refused_refuse structural rfl follow
  case colon =>
    simp only [step, kind]
    have misplaced := colon kind
    simp only [Bool.and_eq_false_iff, Bool.not_eq_false'] at misplaced
    rw [readColon, if_neg]
    · exact refused_refuse structural rfl follow
    · rintro ⟨modifiable, untyped⟩
      rcases misplaced with unmodifiable | typed
      · rw [modifiable] at unmodifiable
        cases unmodifiable
      · rw [typed] at untyped
        cases untyped
  case muta | temp | const =>
    have isModifier : follow.kind.isModifier = true := by
      rw [kind]
      rfl
    rw [step_modifier isModifier, readModifier, modifier isModifier]
    exact Refused.map (refused_refuse structural rfl follow) _
  case int | float | string | bool | null =>
    have isLiteral : follow.kind.isLiteral = true := by
      rw [kind]
      rfl
    exact refused_literal structural isLiteral (blocked (.inr isLiteral))
  case leftBrace =>
    simp only [step, kind, openBlock, headless]
    exact Refused.bind (refused_refuse structural rfl follow) _
  all_goals
    simp only [step, kind]
    exact refused_refuse structural rfl follow

/-! ## Braces without a header -/

omit structural in
theorem headless_of_head {last : NumberedToken} (noArrow : last.kind ≠ .arrow)
    (noType : last.kind ≠ .typeName) : headerBefore? (last :: passed) = none := by
  rcases passed with _ | ⟨before, _ | ⟨earlier, _ | ⟨first, passed⟩⟩⟩ <;>
    simp [headerBefore?, noArrow, noType]

omit structural in
theorem headless_of_fresh (fresh : Fresh state passed) : headerBefore? passed = none := by
  cases passed with
  | nil => rfl
  | cons previous passed =>
    have opened := fresh.opened previous rfl
    exact headless_of_head (kind_ne_of_test opened rfl) (kind_ne_of_test opened rfl)

omit structural in
theorem headless_of_modifiers {modifiers : List NumberedToken} {last : NumberedToken}
    (kinds : Modifiers NumberedToken.kind modifiers) (isName : last.kind = .identifier) :
    headerBefore? (modifiers.reverse ++ last :: passed) = none := by
  cases reversed : modifiers.reverse with
  | nil => exact headless_of_head (by simp [isName]) (by simp [isName])
  | cons modifier earlier =>
    have isModifier := kinds modifier (by rw [← List.mem_reverse, reversed]; simp)
    exact headless_of_head (kind_ne_of_test isModifier rfl) (kind_ne_of_test isModifier rfl)

omit structural in
/-- The colon of a header follows an arrow, that of a statement a name or a modifier. -/
theorem headless_of_clause {clause : TypeClause NumberedToken} {previous : NumberedToken}
    (kinds : clause.WellKinded NumberedToken.kind) (noArrow : previous.kind ≠ .arrow) :
    headerBefore? (clause.leaves.reverse ++ previous :: passed) = none := by
  obtain ⟨colon, before, type, after⟩ := clause
  obtain ⟨colonKind, beforeKinds, typeKind, afterKinds⟩ := kinds
  simp only at colonKind typeKind
  simp only [TypeClause.leaves, List.reverse_cons, List.reverse_append, List.append_assoc,
    List.cons_append, List.nil_append]
  cases reversed : after.reverse with
  | cons modifier earlier =>
    have isModifier := afterKinds modifier (by rw [← List.mem_reverse, reversed]; simp)
    exact headless_of_head (kind_ne_of_test isModifier rfl) (kind_ne_of_test isModifier rfl)
  | nil =>
    cases again : before.reverse with
    | nil =>
      rcases passed with _ | ⟨first, passed⟩ <;> simp [headerBefore?, typeKind, noArrow]
    | cons modifier earlier =>
      have isModifier := beforeKinds modifier (by rw [← List.mem_reverse, again]; simp)
      have noColon : modifier.kind ≠ .colon := kind_ne_of_test isModifier rfl
      rcases earlier with _ | ⟨inner, _ | ⟨innermost, earlier⟩⟩ <;>
        simp [headerBefore?, typeKind, noColon]

/-! ## Paths -/

/-- A name starts a path, or the walk fails at an arrow without a name after it. -/
theorem path_or_refused {state : State} {passed rest : List NumberedToken}
    {name : NumberedToken} (nameKind : name.kind = .identifier)
    (fits : FitsName state passed) (noHeader : NoHeader state passed (name :: rest))
    (bounded : Bounded allowed (name :: rest)) :
    Refused allowed (walk state passed 0 (name :: rest)) ∨
      ∃ path follow later, name :: rest = Path.leaves path ++ follow :: later ∧
        path.WellKinded NumberedToken.kind ∧ follow.kind ≠ .arrow := by
  have nameGoesOn : name.kind ≠ .endOfInput := by simp [nameKind]
  obtain ⟨next, after, rfl⟩ := (bounded.tail nameGoesOn).ne_nil
  by_cases isArrow : next.kind = .arrow
  · have nextGoesOn : next.kind ≠ .endOfInput := by simp [isArrow]
    obtain ⟨inner, later, rfl⟩ := ((bounded.tail nameGoesOn).tail nextGoesOn).ne_nil
    by_cases innerKind : inner.kind = .identifier
    · have innerFits : FitsName ((writeName state name .group).write (next.inRole .arrow))
          (next :: name :: passed) := fitsName_afterArrow isArrow rfl
      rcases path_or_refused innerKind innerFits (noHeader_afterArrow isArrow _)
        ((bounded.tail nameGoesOn).tail nextGoesOn) with
        refused | ⟨path, follow, last, split, kinds, noArrow⟩
      · left
        rw [walk_link nameKind isArrow innerKind fits noHeader]
        exact refused
      · right
        obtain ⟨outer, ending⟩ := path
        refine ⟨⟨(name, next) :: outer, ending⟩, follow, last, ?_,
          Path.wellKinded_cons.mpr ⟨⟨nameKind, isArrow⟩, kinds⟩, noArrow⟩
        rw [split, Path.leaves_cons]
        rfl
    · left
      refine refused_step nameGoesOn ?_
      rw [step_identifier nameKind, readName_fits fits noHeader]
      refine Refused.bind ?_ _
      simp only [nameRole, if_pos isArrow, if_neg innerKind]
      exact refused_refuse structural rfl next
  · exact .inr ⟨⟨[], name⟩, next, after, rfl, ⟨by simp, nameKind⟩, isArrow⟩
termination_by rest.length

/-! ## Modifiers and types -/

omit structural in
theorem modifiers_split {tokens : List NumberedToken} (bounded : Bounded allowed tokens) :
    ∃ modifiers follow later, tokens = modifiers ++ follow :: later ∧
      Modifiers NumberedToken.kind modifiers ∧ follow.kind.isModifier = false := by
  induction tokens with
  | nil =>
    obtain ⟨first, rest, absurd⟩ := bounded.ne_nil
    cases absurd
  | cons token tokens inductionHypothesis =>
    cases isModifier : token.kind.isModifier with
    | false => exact ⟨[], token, tokens, rfl, by simp [Modifiers], isModifier⟩
    | true =>
      have goesOn : token.kind ≠ .endOfInput := kind_ne_of_test isModifier rfl
      obtain ⟨modifiers, follow, later, rfl, kinds, noModifier⟩ :=
        inductionHypothesis (bounded.tail goesOn)
      exact ⟨token :: modifiers, follow, later, rfl, by simpa [Modifiers, isModifier] using kinds,
        noModifier⟩

omit structural in
@[simp] theorem literal_withModifiers (modifiers : List NumberedToken) (name : AnnotatedToken) :
    (withModifiers modifiers name).literal = name.literal := by
  rw [withModifiers_eq]

section Names

variable {name : AnnotatedToken} {earlier : List AnnotatedToken} {modifiers : List NumberedToken}
  (latest : LatestName state name earlier) (kinds : Modifiers NumberedToken.kind modifiers)
  (compatibleName : ¬ Conflicting name) (conflict : Conflicting (withModifiers modifiers name))

include latest kinds compatibleName conflict

omit structural in
/-- Modifiers that conflict are refused at the one that brings the conflict about. -/
theorem clash_modifiers :
    ∃ modifier, walk state passed 0 (modifiers ++ rest) =
      refuse (.conflictingModifiers name.literal) modifier := by
  induction modifiers generalizing state passed name with
  | nil => exact absurd conflict compatibleName
  | cons modifier modifiers inductionHypothesis =>
    have isModifier := kinds modifier (by simp)
    have goesOn : modifier.kind ≠ .endOfInput := kind_ne_of_test isModifier rfl
    have stepped := @step_modifier state passed (modifiers ++ rest) modifier isModifier
    rw [latest.readModifier_eq] at stepped
    by_cases now : Conflicting (withModifiers [modifier] name)
    · refine ⟨modifier, ?_⟩
      rw [if_pos now] at stepped
      rw [List.cons_append, walk, if_neg goesOn, stepped]
      rfl
    · rw [if_neg now] at stepped
      rw [List.cons_append, walk_step goesOn stepped]
      have clash := @inductionHypothesis _ (modifier :: passed) _ (latest.modified [modifier])
        (fun other member => kinds other (by simp [member])) now conflict
      rwa [literal_withModifiers] at clash

theorem refused_modifiers : Refused allowed (walk state passed 0 (modifiers ++ rest)) := by
  obtain ⟨modifier, clash⟩ := @clash_modifiers state passed rest name earlier modifiers latest kinds
    compatibleName conflict
  rw [clash]
  exact refused_refuse structural rfl modifier

omit structural in
/-- So are those in a type clause. -/
theorem clash_typeClause (type : Option String) :
    ∃ modifier, typeClause state type (modifiers ++ rest) =
      refuse (.conflictingModifiers name.literal) modifier := by
  induction modifiers generalizing state name with
  | nil => exact absurd conflict compatibleName
  | cons modifier modifiers inductionHypothesis =>
    have isModifier := kinds modifier (by simp)
    have noType : modifier.kind ≠ .typeName := kind_ne_of_test isModifier rfl
    rw [List.cons_append, typeClause, if_neg noType, if_pos isModifier, latest.readModifier_eq]
    by_cases now : Conflicting (withModifiers [modifier] name)
    · rw [if_pos now]
      exact ⟨modifier, rfl⟩
    · rw [if_neg now, Result.ok_bind]
      obtain ⟨clashing, clash⟩ := inductionHypothesis (latest.modified [modifier])
        (fun other member => kinds other (by simp [member])) now conflict
      rw [literal_withModifiers] at clash
      exact ⟨clashing, by rw [clash]; rfl⟩

theorem refused_typeClause (type : Option String) :
    Refused allowed (typeClause state type (modifiers ++ rest)) := by
  obtain ⟨modifier, clash⟩ := @clash_typeClause state rest name earlier modifiers latest kinds
    compatibleName conflict type
  rw [clash]
  exact refused_refuse structural rfl modifier

end Names

theorem clause_or_refused {colon : NumberedToken} {name : AnnotatedToken}
    {earlier : List AnnotatedToken} (colonKind : colon.kind = .colon)
    (latest : LatestName state name earlier) (untyped : state.typed = false)
    (compatibleName : ¬ Conflicting name) (bounded : Bounded allowed (colon :: rest)) :
    Refused allowed (walk state passed 0 (colon :: rest)) ∨
      ∃ clause follow later, colon :: rest = TypeClause.leaves clause ++ follow :: later ∧
        clause.WellKinded NumberedToken.kind ∧
        ¬ Conflicting (withModifiers (clause.before ++ clause.after) name) ∧
        follow.kind.isModifier = false ∧ follow.kind ≠ .typeName := by
  have goesOn : colon.kind ≠ .endOfInput := by simp [colonKind]
  have reduces : Refused allowed (typeClause state none rest) →
      Refused allowed (walk state passed 0 (colon :: rest)) := by
    intro refused
    refine refused_step goesOn ?_
    simp only [step, colonKind]
    rw [readColon, if_pos (by simp [latest.modifiable, untyped])]
    exact refused.bind _
  obtain ⟨before, type, later, rfl, beforeKinds, typeNoModifier⟩ :=
    modifiers_split (bounded.tail goesOn)
  by_cases conflictBefore : Conflicting (withModifiers before name)
  · exact .inl (reduces (refused_typeClause structural latest beforeKinds compatibleName
      conflictBefore none))
  have beforeRead := typeClause_modifiers latest beforeKinds conflictBefore none (type :: later)
  by_cases typeKind : type.kind = .typeName
  · have typeGoesOn : type.kind ≠ .endOfInput := by simp [typeKind]
    obtain ⟨after, follow, last, rfl, afterKinds, noModifier⟩ := modifiers_split
      (((bounded.tail goesOn).after (goesOn_of_inLine (Modifiers.inLine beforeKinds))).tail typeGoesOn)
    let modified : State := { state with output := withModifiers before name :: earlier }
    have typeRead : typeClause modified none (type :: (after ++ follow :: last)) =
        (fun read => (read.1, read.2.1, read.2.2 + 1)) <$>
          typeClause modified (some type.literal) (after ++ follow :: last) := by
      rw [typeClause, if_pos typeKind, if_neg (by simp)]
      rfl
    have stillLatest : LatestName modified (withModifiers before name) earlier :=
      latest.modified before
    by_cases conflict : Conflicting (withModifiers after (withModifiers before name))
    · refine .inl (reduces ?_)
      have refused := @refused_typeClause allowed structural modified (follow :: last) _ _ after
        stillLatest afterKinds conflictBefore conflict (some type.literal)
      rw [beforeRead, typeRead]
      exact (refused.map _).map _
    · by_cases secondType : follow.kind = .typeName
      · refine .inl (reduces ?_)
        have afterRead := typeClause_modifiers stillLatest afterKinds conflict
          (some type.literal) (follow :: last)
        rw [beforeRead, typeRead, afterRead, typeClause, if_pos secondType, if_pos (by rfl)]
        exact (((refused_refuse structural rfl follow).map _).map _).map _
      · refine .inr ⟨⟨colon, before, type, after⟩, follow, last, ?_,
          ⟨colonKind, beforeKinds, typeKind, afterKinds⟩, ?_, noModifier, secondType⟩
        · simp [TypeClause.leaves]
        · rwa [withModifiers_append]
  · left
    refine refused_step goesOn ?_
    simp only [step, colonKind]
    rw [readColon, if_pos (by simp [latest.modifiable, untyped]), beforeRead,
      typeClause_end typeNoModifier typeKind]
    exact refused_refuse structural rfl colon

/-! ## Names, literals and segments -/

omit structural in
/-- The token in front of the colon of a statement is a name or a modifier. -/
theorem headless_of_qualified {clause : TypeClause NumberedToken}
    {modifiers : List NumberedToken} {last : NumberedToken}
    (kinds : clause.WellKinded NumberedToken.kind)
    (modifierKinds : Modifiers NumberedToken.kind modifiers) (isName : last.kind = .identifier) :
    headerBefore? (clause.leaves.reverse ++ (modifiers.reverse ++ last :: passed)) = none := by
  cases reversed : modifiers.reverse with
  | nil => exact headless_of_clause kinds (by simp [isName])
  | cons modifier earlier =>
    have isModifier := modifierKinds modifier (by rw [← List.mem_reverse, reversed]; simp)
    exact headless_of_clause kinds (kind_ne_of_test isModifier rfl)

/-- Behind the modifiers of a name a type clause may stand, and then the segment ends. -/
theorem qualified_or_refused {next last : NumberedToken} {name : AnnotatedToken}
    {earlier : List AnnotatedToken} {modifiers : List NumberedToken}
    (latest : LatestName state name earlier) (untyped : state.typed = false)
    (compatibleName : ¬ Conflicting name)
    (kinds : Modifiers NumberedToken.kind modifiers) (lastKind : last.kind = .identifier)
    (noModifier : next.kind.isModifier = false) (bounded : Bounded allowed (next :: rest)) :
    Refused allowed (walk state (modifiers.reverse ++ last :: passed) 0 (next :: rest)) ∨
      ∃ (clause : Option (TypeClause NumberedToken)) (follow : NumberedToken)
        (later : List NumberedToken),
        next :: rest = (clause.map TypeClause.leaves).getD [] ++ follow :: later ∧
        (∀ inner ∈ clause, inner.WellKinded NumberedToken.kind) ∧
        ¬ Conflicting (withModifiers
          ((clause.map fun inner => inner.before ++ inner.after).getD []) name) ∧
        endsSegment follow.kind = true := by
  by_cases isColon : next.kind = .colon
  · rcases clause_or_refused structural isColon latest untyped compatibleName bounded with
      refused | ⟨clause, follow, later, split, clauseKinds, compatible, followKind, noType⟩
    · exact .inl refused
    rw [split, walk_clause clauseKinds latest untyped compatible followKind noType]
    let typed : State := { state with
      output := typeToken clause.colon clause.type.literal ::
        withModifiers (clause.before ++ clause.after) name :: earlier
      typed := true }
    have named : typed.modifiable = true := latest.modifiable
    refine (@closes_or_refused allowed structural typed _ later follow (fun _ => .inr ⟨named, rfl⟩)
      (by simp [followKind]) (by simp [typed]) (by simp [typed, typeToken])
      (headless_of_qualified clauseKinds kinds lastKind)).imp_right fun ends => ?_
    exact ⟨some clause, follow, later, rfl, by simpa using clauseKinds, compatible, ends⟩
  · have starts : state.startsPath = true := by
      simp [State.startsPath, latest.written, latest.isName]
    have noGroup : ∀ head ∈ state.output.head?, head.role ≠ .group := by
      simp [latest.written, latest.isName]
    refine (closes_or_refused structural (fun _ => .inr ⟨latest.modifiable, starts⟩)
      (by simp [noModifier])
      (by simp [isColon]) noGroup (headless_of_modifiers kinds lastKind)).imp_right fun ends => ?_
    exact ⟨none, next, rest, rfl, by simp, compatibleName, ends⟩

theorem definition_or_refused {name : NumberedToken} (nameKind : name.kind = .identifier)
    (fresh : Fresh state passed) (unassigned : state.assigned = false)
    (untyped : state.typed = false) (noHeader : NoHeader state passed (name :: rest))
    (bounded : Bounded allowed (name :: rest)) :
    Refused allowed (walk state passed 0 (name :: rest)) ∨
      ∃ definition follow later, name :: rest = Definition.leaves definition ++ follow :: later ∧
        definition.WellKinded NumberedToken.kind ∧
        Compatible NumberedToken.kind definition.allModifiers ∧
        endsSegment follow.kind = true := by
  rcases path_or_refused structural nameKind fresh.fitsName noHeader bounded with
    refused | ⟨path, afterPath, afterPathRest, split, pathKinds, noArrow⟩
  · exact .inl refused
  rw [split] at bounded ⊢
  have boundedPath := bounded.after (goesOn_of_inLine (Path.inLine pathKinds))
  obtain ⟨modifiers, next, last, again, modifierKinds, nextNoModifier⟩ := modifiers_split boundedPath
  rw [walk_path pathKinds noArrow fresh.starts fresh.fitsName]
  rw [again] at boundedPath ⊢
  have role : lastRole state = .identifier := by simp [lastRole, unassigned]
  -- the state after the path, where the name is the newest token
  let named : State := { state with
    output := (pathTokens state.frames path (path.last.inRole (lastRole state))).reverse ++
      state.output
    named := state.named || !state.assigned }
  have latest : LatestName named (path.last.inRole .identifier)
      ((spliced state.frames path.first ++ linkTokens path.outer).reverse ++ state.output) :=
    ⟨by simp [named, State.modifiable, unassigned], by simp [named, pathTokens, role], rfl⟩
  by_cases conflict : Conflicting (withModifiers modifiers (path.last.inRole .identifier))
  · exact .inl (refused_modifiers structural latest modifierKinds (by rintro ⟨⟨⟩, -⟩) conflict)
  obtain ⟨beforeName, pathPassed⟩ : ∃ beforeName,
      path.leaves.reverse ++ passed = path.last :: beforeName := ⟨_, by simp [Path.leaves]; rfl⟩
  have boundedNext := boundedPath.after (goesOn_of_inLine (Modifiers.inLine modifierKinds))
  rw [walk_modifiers latest modifierKinds conflict, pathPassed]
  refine (qualified_or_refused structural (latest.modified modifiers) untyped conflict modifierKinds
    pathKinds.2 nextNoModifier boundedNext).imp_right ?_
  rintro ⟨clause, follow, later, clauseSplit, clauseKinds, compatible, ends⟩
  refine ⟨⟨path, modifiers, clause⟩, follow, later, ?_, ⟨pathKinds, modifierKinds, clauseKinds⟩, ?_,
    ends⟩
  · simp [Definition.leaves, clauseSplit]
  · rw [← withModifiers_append] at compatible
    exact not_conflicting_iff.mp compatible

omit structural in
theorem noLiteral_of_path {path : Path NumberedToken}
    (kinds : path.WellKinded NumberedToken.kind) :
    ∀ token ∈ path.leaves, token.kind.isLiteral = false := by
  intro token member
  rcases Path.kind_leaves kinds token member with kind | kind <;> rw [kind] <;> rfl

omit structural in
theorem noLiteral_of_modifier {kind : TokenKind} (isModifier : kind.isModifier = true) :
    kind.isLiteral = false := by
  cases kind <;> simp_all [TokenKind.isModifier, TokenKind.isLiteral]

omit structural in
theorem noLiteral_of_definition {definition : Definition NumberedToken}
    (kinds : definition.WellKinded NumberedToken.kind) :
    ∀ token ∈ definition.leaves, token.kind.isLiteral = false := by
  intro token member
  rcases definition.kind_leaves kinds token member with
    isName | isArrow | isModifier | ⟨-, isColon | isType⟩
  · rw [isName]; rfl
  · rw [isArrow]; rfl
  · exact noLiteral_of_modifier isModifier
  · rw [isColon]; rfl
  · rw [isType]; rfl

omit structural in
theorem readable_of_noLiteral {tokens : List NumberedToken}
    (noLiteral : ∀ token ∈ tokens, token.kind.isLiteral = false) : Readable tokens := by
  intro token member isLiteral
  rw [noLiteral token member] at isLiteral
  cases isLiteral

theorem literal_or_refused {token : NumberedToken} (isLiteral : token.kind.isLiteral = true)
    (fresh : Fresh state passed) (bounded : Bounded allowed (token :: rest)) :
    Refused allowed (walk state passed 0 (token :: rest)) ∨
      ∃ follow later, rest = follow :: later ∧ (∃ value, literalValue token = .ok value) ∧
        endsSegment follow.kind = true := by
  have goesOn : token.kind ≠ .endOfInput := kind_ne_of_test isLiteral rfl
  obtain ⟨follow, later, rfl⟩ := (bounded.tail goesOn).ne_nil
  cases read : literalValue token with
  | error failure =>
    left
    refine refused_step goesOn ?_
    rw [step_literal isLiteral, readLiteral_fresh fresh, valueToken, read]
    exact ⟨failure, rfl, bounded.numbers token (by simp) failure read⟩
  | ok value =>
    have outcome := @closes_or_refused allowed structural (state.write (readLiteralToken token))
      (token :: passed) later follow (fun _ => .inl ⟨token, rfl, .inr isLiteral⟩)
      (fun _ => fresh.unnamed) (fun _ => by
        have unnamed := fresh.unnamed
        simp only [State.modifiable] at unnamed
        simp [State.modifiable, State.write, unnamed])
      (by simp [State.write, readLiteralToken])
      (headless_of_head (kind_ne_of_test isLiteral rfl) (kind_ne_of_test isLiteral rfl))
    rcases outcome with refused | ends
    · left
      rw [walk_literal isLiteral ⟨value, read⟩ fresh]
      exact refused
    · exact .inr ⟨follow, later, rfl, ⟨value, rfl⟩, ends⟩

/-- The tokens that neither name a thing nor are literals and still do not end a segment cannot
stand at its start. -/
theorem nothing_or_refused {follow : NumberedToken} (fresh : Fresh state passed)
    (noGroup : ∀ last ∈ state.output.head?, last.role ≠ .group)
    (noName : follow.kind ≠ .identifier) (noLiteral : follow.kind.isLiteral = false) :
    Refused allowed (walk state passed 0 (follow :: rest)) ∨ endsSegment follow.kind = true :=
  closes_or_refused structural (by simp [noName, noLiteral]) (fun _ => fresh.unnamed)
    (fun _ => by simp [fresh.unnamed]) noGroup (headless_of_fresh fresh)

theorem segment_or_refused {tokens : List NumberedToken} (fresh : Fresh state passed)
    (unassigned : state.assigned = false) (untyped : state.typed = false)
    (noGroup : ∀ last ∈ state.output.head?, last.role ≠ .group)
    (noHeader : NoHeader state passed tokens) (bounded : Bounded allowed tokens) :
    Refused allowed (walk state passed 0 tokens) ∨
      ∃ segment follow later, tokens = Segment.leaves segment ++ follow :: later ∧
        segment.WellKinded NumberedToken.kind ∧ segment.Compatible NumberedToken.kind ∧
        Readable segment.leaves ∧ endsSegment follow.kind = true := by
  obtain ⟨first, rest, rfl⟩ := bounded.ne_nil
  by_cases isName : first.kind = .identifier
  · rcases definition_or_refused structural isName fresh unassigned untyped noHeader bounded with
      refused | ⟨definition, follow, later, split, kinds, compatible, ends⟩
    · exact .inl refused
    · exact .inr ⟨.name definition, follow, later, split, kinds, compatible,
        readable_of_noLiteral (noLiteral_of_definition kinds), ends⟩
  cases isLiteral : first.kind.isLiteral with
  | true =>
    rcases literal_or_refused structural isLiteral fresh bounded with
      refused | ⟨follow, later, rfl, readable, ends⟩
    · exact .inl refused
    · refine .inr ⟨.literal first, follow, later, rfl, isLiteral, trivial, ?_, ends⟩
      simpa [Readable, Segment.leaves] using fun _ => readable
  | false =>
    rcases nothing_or_refused structural fresh noGroup isName isLiteral with refused | ends
    · exact .inl refused
    · exact .inr ⟨.empty, first, rest, rfl, trivial, trivial, by simp [Readable, Segment.leaves],
        ends⟩

/-- An operand after the `=`, or nothing where none has to stand. -/
theorem operand_or_refused {tokens : List NumberedToken} (fresh : Fresh state passed)
    (assigned : state.assigned = true) (noGroup : ∀ last ∈ state.output.head?, last.role ≠ .group)
    (bounded : Bounded allowed tokens) :
    Refused allowed (walk state passed 0 tokens) ∨
      ∃ operand follow later,
        tokens = (Option.map Operand.leaves operand).getD [] ++ follow :: later ∧
        (∀ inner ∈ operand, inner.WellKinded NumberedToken.kind ∧ Readable inner.leaves) ∧
        endsSegment follow.kind = true := by
  obtain ⟨first, rest, rfl⟩ := bounded.ne_nil
  by_cases isName : first.kind = .identifier
  · have noHeader : NoHeader state passed (first :: rest) := by
      intro _ unassigned
      rw [assigned] at unassigned
      cases unassigned
    rcases path_or_refused structural isName fresh.fitsName noHeader bounded with
      refused | ⟨path, follow, later, split, kinds, noArrow⟩
    · exact .inl refused
    · have outcome := @closes_or_refused allowed structural
        { state with
          output := (pathTokens state.frames path (path.last.inRole (lastRole state))).reverse ++
            state.output
          named := state.named || !state.assigned }
        (path.leaves.reverse ++ passed) later follow
        (fun _ => .inl ⟨path.last, by simp [Path.leaves], .inl kinds.2⟩)
        (fun _ => by simp [State.modifiable, assigned])
        (fun _ => by simp [State.modifiable, assigned])
        (by simp [pathTokens, lastRole, assigned]) (by
          simp only [Path.leaves, List.reverse_append, List.reverse_cons, List.reverse_nil,
            List.nil_append, List.cons_append]
          exact headless_of_head (by simp [kinds.2]) (by simp [kinds.2]))
      rw [split]
      rcases outcome with refused | ends
      · left
        rw [walk_path kinds noArrow fresh.starts fresh.fitsName]
        exact refused
      · refine .inr ⟨some (.reference path), follow, later, rfl, ?_, ends⟩
        rintro _ ⟨⟩
        exact ⟨kinds, readable_of_noLiteral (noLiteral_of_path kinds)⟩
  cases isLiteral : first.kind.isLiteral with
  | true =>
    rcases literal_or_refused structural isLiteral fresh bounded with
      refused | ⟨follow, later, rfl, readable, ends⟩
    · exact .inl refused
    · refine .inr ⟨some (.literal first), follow, later, rfl, ?_, ends⟩
      rintro _ ⟨⟩
      exact ⟨isLiteral, by simpa [Readable, Operand.leaves] using fun _ => readable⟩
  | false =>
    rcases nothing_or_refused structural fresh noGroup isName isLiteral with refused | ends
    · exact .inl refused
    · exact .inr ⟨none, first, rest, rfl, by simp, ends⟩

end Segments

end ParaLang.Annotations
