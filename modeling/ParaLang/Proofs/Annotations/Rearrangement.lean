import ParaLang.Proofs.Annotations.Approach
import ParaLang.Proofs.Annotations.Numbers

/-! # Rearranged modifiers

The modifiers of a name stand behind it and around its type.  Annotation folds them into flags of
the name, so it does not matter how they are distributed over these places, nor in which order. -/

namespace ParaLang.Annotations

open ParaLang.Grammar
open AnnotatedToken (unnumbered)

/-! ## Looks back -/

section Screens

variable {passed : List NumberedToken} {last : NumberedToken}

theorem pathNames_screened (noName : last.kind ≠ .identifier) (noArrow : last.kind ≠ .arrow)
    (name : NumberedToken) : ∀ more : List NumberedToken,
      pathNames name (more ++ last :: passed) = pathNames name more
  | [] => by cases passed <;> simp [pathNames, noArrow]
  | [first] => by simp [pathNames, noName]
  | first :: second :: more => by
    simp only [List.cons_append, pathNames, pathNames_screened noName noArrow second more]

/-- A look back for a header ends at a token that is no name and no arrow. -/
theorem headerBefore?_screened (noName : last.kind ≠ .identifier) (noArrow : last.kind ≠ .arrow)
    (noColon : last.kind ≠ .colon) (headless : headerBefore? (last :: passed) = none) :
    ∀ more : List NumberedToken, headerBefore? (more ++ last :: passed) = headerBefore? more
  | [] => headless
  | [first] => by
    rcases passed with _ | ⟨second, _ | ⟨third, passed⟩⟩ <;>
      simp [headerBefore?, noName, noColon]
  | [first, second] => by
    have names := @pathNames_screened passed last noName noArrow second []
    simp only [List.nil_append] at names
    rcases passed with _ | ⟨third, passed⟩ <;> simp [headerBefore?, noArrow, names]
  | [first, second, third] => by
    have names := @pathNames_screened passed last noName noArrow second [third]
    simp only [List.cons_append, List.nil_append] at names
    simp [headerBefore?, noName, names]
  | first :: second :: third :: fourth :: more => by
    have names := @pathNames_screened passed last noName noArrow second (third :: fourth :: more)
    simp only [List.cons_append] at names
    simp only [List.cons_append, headerBefore?, names,
      pathNames_screened noName noArrow fourth more]

end Screens

/-! ## Qualified names -/

/-- The tokens behind the name of a definition. -/
def qualifiers {α : Type} (definition : Definition α) : List α :=
  definition.modifiers ++ (definition.clause.map TypeClause.leaves).getD []

/-- The colon and the type of a definition. -/
def typeParts {α : Type} (definition : Definition α) : Option (α × α) :=
  definition.clause.map fun clause => (clause.colon, clause.type)

theorem length_qualifiers {α : Type} (definition : Definition α) :
    (qualifiers definition).length =
      definition.allModifiers.length + ((typeParts definition).map fun _ => 2).getD 0 := by
  obtain ⟨path, modifiers, clause⟩ := definition
  cases clause with
  | none => simp [qualifiers, typeParts, Definition.allModifiers]
  | some clause =>
    simp [qualifiers, typeParts, Definition.allModifiers, TypeClause.leaves]
    omega

section Qualified

variable {definition other : Definition NumberedToken} {state : State} {name : NumberedToken}
  {passed after : List NumberedToken}

theorem qualifying_qualifiers (kinds : definition.WellKinded NumberedToken.kind)
    (nonempty : qualifiers definition ≠ []) : Qualifying (qualifiers definition) := by
  obtain ⟨path, modifiers, clause⟩ := definition
  obtain ⟨-, modifierKinds, clauseKinds⟩ := kinds
  simp only [qualifiers] at nonempty ⊢
  simp only at modifierKinds clauseKinds
  have clauseStarts (clause : TypeClause NumberedToken)
      (kinds : clause.WellKinded NumberedToken.kind) : Qualifying clause.leaves := by
    obtain ⟨isColon, before, isType, behind⟩ := kinds
    refine ⟨⟨_, _, rfl, .inr isColon⟩, fun token member => ?_⟩
    simp only [TypeClause.leaves, List.mem_cons, List.mem_append] at member
    rcases member with rfl | member | rfl | member
    · exact .inr (.inl isColon)
    · exact .inl (before token member)
    · exact .inr (.inr isType)
    · exact .inl (behind token member)
  cases clause with
  | none =>
    refine ⟨?_, fun token member => .inl (modifierKinds token (by simpa using member))⟩
    cases modifiers with
    | nil => simp at nonempty
    | cons modifier modifiers => exact ⟨modifier, _, rfl, .inl (modifierKinds modifier (by simp))⟩
  | some clause =>
    obtain ⟨starts, inside⟩ := clauseStarts clause (clauseKinds clause rfl)
    refine ⟨?_, List.forall_mem_append.mpr ⟨fun token member => .inl (modifierKinds token member),
      inside⟩⟩
    cases modifiers with
    | nil => exact starts
    | cons modifier modifiers => exact ⟨modifier, _, rfl, .inl (modifierKinds modifier (by simp))⟩

/-- Behind its qualifiers a name is no longer seen, nor what is before it. -/
theorem screened_qualifiers (kinds : definition.WellKinded NumberedToken.kind)
    (isName : name.kind = .identifier) (nonempty : qualifiers definition ≠ []) :
    ∃ last earlier, (qualifiers definition).reverse ++ name :: passed = last :: earlier ∧
      (last.kind = .typeName ∨ last.kind.isModifier = true) ∧
      headerBefore? (last :: earlier) = none := by
  obtain ⟨path, modifiers, clause⟩ := definition
  obtain ⟨-, modifierKinds, clauseKinds⟩ := kinds
  simp only [qualifiers] at nonempty ⊢
  simp only at modifierKinds clauseKinds
  cases clause with
  | none =>
    have headless := @headless_of_modifiers passed modifiers name modifierKinds isName
    simp only [Option.map_none, Option.getD_none, List.append_nil] at nonempty ⊢
    cases reversed : modifiers.reverse with
    | nil => simp [List.reverse_eq_nil_iff.mp reversed] at nonempty
    | cons modifier earlier =>
      rw [reversed] at headless
      exact ⟨modifier, _, rfl,
        .inr (modifierKinds modifier (by rw [← List.mem_reverse, reversed]; simp)), headless⟩
  | some clause =>
    have headless := @headless_of_qualified passed clause modifiers name (clauseKinds clause rfl)
      modifierKinds isName
    obtain ⟨-, -, isType, behind⟩ := clauseKinds clause rfl
    simp only [Option.map_some, Option.getD_some, List.reverse_append, List.append_assoc] at headless ⊢
    have last : ∃ token earlier, clause.leaves.reverse = token :: earlier ∧
        (token.kind = .typeName ∨ token.kind.isModifier = true) := by
      simp only [TypeClause.leaves, List.reverse_cons, List.reverse_append, List.append_assoc]
      cases reversed : clause.after.reverse with
      | nil => exact ⟨clause.type, _, rfl, .inl isType⟩
      | cons modifier earlier =>
        exact ⟨modifier, _, rfl,
          .inr (behind modifier (by rw [← List.mem_reverse, reversed]; simp))⟩
    obtain ⟨token, earlier, reversed, kind⟩ := last
    rw [reversed] at headless ⊢
    exact ⟨token, _, rfl, kind, headless⟩

theorem indistinct_qualifiers (kinds : definition.WellKinded NumberedToken.kind)
    (otherKinds : other.WellKinded NumberedToken.kind) (isName : name.kind = .identifier)
    (long : (qualifiers definition).length = (qualifiers other).length) :
    Indistinct ((qualifiers definition).reverse ++ name :: passed)
      ((qualifiers other).reverse ++ name :: passed) := by
  by_cases empty : qualifiers definition = []
  · rw [empty, List.length_nil, eq_comm, List.length_eq_zero_iff] at long
    rw [empty, long]
    exact .refl _
  have otherNonempty : qualifiers other ≠ [] := by
    intro otherEmpty
    rw [otherEmpty, List.length_nil, List.length_eq_zero_iff] at long
    exact empty long
  obtain ⟨last, earlier, split, kind, headless⟩ :=
    @screened_qualifiers definition name passed kinds isName empty
  obtain ⟨last', earlier', split', kind', headless'⟩ :=
    @screened_qualifiers other name passed otherKinds isName otherNonempty
  rw [split, split']
  -- only the last token of either list is looked at, and it is no name, arrow, colon or literal
  have blunt {token : NumberedToken} (kind : token.kind = .typeName ∨ token.kind.isModifier = true) :
      token.kind ≠ .identifier ∧ token.kind ≠ .arrow ∧ token.kind ≠ .colon ∧
        token.kind.isLiteral = false ∧ endsStatement token.kind = false := by
    cases actual : token.kind <;> rw [actual] at kind <;>
      simp_all [TokenKind.isModifier, TokenKind.isLiteral, endsStatement]
  obtain ⟨noName, noArrow, noColon, noLiteral, noEnd⟩ := blunt kind
  obtain ⟨noName', noArrow', noColon', noLiteral', noEnd'⟩ := blunt kind'
  refine ⟨by simp [noName, noName'], by simp [noLiteral, noLiteral'], by simp [noEnd, noEnd'],
    fun more => ?_⟩
  rw [headerBefore?_screened noName noArrow noColon headless,
    headerBefore?_screened noName' noArrow' noColon' headless']

end Qualified

/-! ## Walking over the qualifiers -/

section Flags

variable {modifiers others : List NumberedToken}

theorem any_kind_perm (same : (modifiers.map NumberedToken.kind).Perm (others.map NumberedToken.kind))
    (kind : TokenKind) : modifiers.any (·.kind == kind) = others.any (·.kind == kind) := by
  have members := same.mem_iff (a := kind)
  simp only [List.mem_map] at members
  rw [Bool.eq_iff_iff]
  simpa using members

/-- The flags of a name do not depend on the order of its modifiers. -/
theorem withModifiers_perm
    (same : (modifiers.map NumberedToken.kind).Perm (others.map NumberedToken.kind))
    (name : AnnotatedToken) : withModifiers modifiers name = withModifiers others name := by
  simp only [withModifiers_eq, any_kind_perm same]

theorem compatible_perm
    (same : (modifiers.map NumberedToken.kind).Perm (others.map NumberedToken.kind)) :
    Compatible NumberedToken.kind modifiers ↔ Compatible NumberedToken.kind others := by
  simp only [Compatible, any_kind_perm same]

end Flags

section Walking

variable {definition other : Definition NumberedToken} {state : State} {name : NumberedToken}
  {passed after : List NumberedToken}

theorem walk_over (run : List NumberedToken) (count : Nat) (rest : List NumberedToken) :
    walk state passed (count + run.length) (run ++ rest) =
      walk state (run.reverse ++ passed) count rest := by
  induction run generalizing passed with
  | nil => rfl
  | cons token run inductionHypothesis =>
    rw [List.length_cons, ← Nat.add_assoc, List.cons_append, walk, inductionHypothesis]
    simp

/-- The walk behind a type clause that has been read, over what follows the passed tokens. -/
def walkTyped (colon : NumberedToken) (passed rest : List NumberedToken) :
    State × Option String × Nat → Result (List AnnotatedToken)
  | (_, none, _) => refuse .missingType colon
  | (state, some type, count) =>
    walk { state.write (typeToken colon type) with typed := true } passed count rest

/-- The walk over a type clause reads what follows its colon. -/
theorem walk_colon {clause : TypeClause NumberedToken} (isColon : clause.colon.kind = .colon)
    (modifiable : state.modifiable = true) (untyped : state.typed = false) :
    walk state passed 0 (clause.leaves ++ after) =
      typeClause state none (clause.before ++ clause.type :: (clause.after ++ after)) >>=
        walkTyped clause.colon (clause.colon :: passed)
          (clause.before ++ clause.type :: (clause.after ++ after)) := by
  simp only [TypeClause.leaves, List.cons_append, List.append_assoc, walk, step, isColon, readColon,
    modifiable, untyped, Bool.not_false, and_self, if_true]
  cases typeClause state none (clause.before ++ clause.type :: (clause.after ++ after)) with
  | error failure => rfl
  | ok read =>
    obtain ⟨other, type, count⟩ := read
    cases type <;> rfl

/-- Compatible modifiers are folded into the name, and the type clause may go on behind them. -/
theorem walk_qualifiers (kinds : definition.WellKinded NumberedToken.kind)
    {earlier : List AnnotatedToken}
    (latest : LatestName state (name.inRole .identifier) earlier) (untyped : state.typed = false)
    (compatible : Compatible NumberedToken.kind definition.allModifiers) :
    walk state passed 0 (qualifiers definition ++ after) =
      match definition.clause with
      | none =>
        walk { state with
            output := withModifiers definition.allModifiers (name.inRole .identifier) :: earlier }
          ((qualifiers definition).reverse ++ passed) 0 after
      | some clause =>
        typeClause { state with
            output := withModifiers definition.allModifiers (name.inRole .identifier) :: earlier }
          (some clause.type.literal) after >>=
            walkTyped clause.colon ((qualifiers definition).reverse ++ passed) after := by
  obtain ⟨path, modifiers, clause⟩ := definition
  obtain ⟨-, modifierKinds, clauseKinds⟩ := kinds
  simp only [Definition.allModifiers] at modifierKinds clauseKinds compatible ⊢
  have fits := (@not_conflicting_iff name _).mpr compatible.left
  have walked := walk_modifiers latest modifierKinds fits passed
  cases clause with
  | none => simpa [qualifiers] using walked after
  | some clause =>
    have clauseKind := clauseKinds clause rfl
    simp only [Option.map_some, Option.getD_some] at compatible ⊢
    have fitsAll := (@not_conflicting_iff name _).mpr compatible
    rw [withModifiers_append] at fitsAll ⊢
    have stillLatest := latest.modified modifiers
    have colon := @walk_colon _ (modifiers.reverse ++ passed) after clause clauseKind.1
      stillLatest.modifiable untyped
    have read := @typeClause_clause _ after clause clauseKind _ _ stillLatest fitsAll
    have goesOn (state : State) (count : Nat) :
        walk state (clause.colon :: (modifiers.reverse ++ passed))
            (count + (clause.before ++ clause.type :: clause.after).length)
            (clause.before ++ clause.type :: (clause.after ++ after)) =
          walk state ((modifiers ++ clause.leaves).reverse ++ passed) count after := by
      have skipped := @walk_over state (clause.colon :: (modifiers.reverse ++ passed))
        (clause.before ++ clause.type :: clause.after) count after
      simpa [TypeClause.leaves] using skipped
    simp only [qualifiers, Option.map_some, Option.getD_some]
    rw [List.append_assoc, walked, colon, read]
    cases typeClause { state with output := _ } (some clause.type.literal) after with
    | error failure => rfl
    | ok result =>
      obtain ⟨other, type, count⟩ := result
      cases type with
      | none => rfl
      | some type => exact goesOn _ count

/-- Modifiers that conflict are refused inside a type clause. -/
theorem clash_clause {clause : TypeClause NumberedToken}
    (kinds : clause.WellKinded NumberedToken.kind) {named : AnnotatedToken}
    {earlier : List AnnotatedToken} (latest : LatestName state named earlier)
    (compatibleName : ¬ Conflicting named)
    (conflict : Conflicting (withModifiers (clause.before ++ clause.after) named)) :
    ∃ modifier, typeClause state none (clause.before ++ clause.type :: (clause.after ++ after)) =
      refuse (.conflictingModifiers named.literal) modifier := by
  obtain ⟨colon, before, type, behind⟩ := clause
  obtain ⟨-, beforeKinds, isType, behindKinds⟩ := kinds
  simp only at isType conflict ⊢
  by_cases conflictBefore : Conflicting (withModifiers before named)
  · exact clash_typeClause latest beforeKinds compatibleName conflictBefore none
  · rw [withModifiers_append] at conflict
    obtain ⟨modifier, clash⟩ := @clash_typeClause _ after _ _ behind (latest.modified before)
      behindKinds conflictBefore conflict (some type.literal)
    rw [literal_withModifiers] at clash
    refine ⟨modifier, ?_⟩
    rw [typeClause_modifiers latest beforeKinds conflictBefore, typeClause, if_pos isType,
      if_neg (by simp), clash]
    rfl

/-- Conflicting modifiers are refused, wherever they stand. -/
theorem clash_qualifiers (kinds : definition.WellKinded NumberedToken.kind)
    {earlier : List AnnotatedToken}
    (latest : LatestName state (name.inRole .identifier) earlier) (untyped : state.typed = false)
    (conflict : ¬ Compatible NumberedToken.kind definition.allModifiers) :
    ∃ modifier, walk state passed 0 (qualifiers definition ++ after) =
      refuse (.conflictingModifiers name.literal) modifier := by
  obtain ⟨path, modifiers, clause⟩ := definition
  obtain ⟨-, modifierKinds, clauseKinds⟩ := kinds
  simp only [Definition.allModifiers] at modifierKinds clauseKinds conflict ⊢
  rw [← @not_conflicting_iff name, not_not] at conflict
  by_cases conflictFirst : Conflicting (withModifiers modifiers (name.inRole .identifier))
  · simp only [qualifiers, List.append_assoc]
    exact clash_modifiers latest modifierKinds (by rintro ⟨⟨⟩, -⟩) conflictFirst
  · cases clause with
    | none => exact absurd (by simpa using conflict) conflictFirst
    | some clause =>
      have clauseKind := clauseKinds clause rfl
      simp only [Option.map_some, Option.getD_some] at conflict
      rw [withModifiers_append] at conflict
      have stillLatest := latest.modified modifiers
      obtain ⟨modifier, clash⟩ := @clash_clause _ after clause clauseKind _ _ stillLatest
        conflictFirst conflict
      have colon := @walk_colon _ (modifiers.reverse ++ passed) after clause clauseKind.1
        stillLatest.modifiable untyped
      rw [literal_withModifiers] at clash
      refine ⟨modifier, ?_⟩
      simp only [qualifiers, Option.map_some, Option.getD_some]
      rw [List.append_assoc, walk_modifiers latest modifierKinds conflictFirst, colon, clash]
      rfl

/-- The colon of a type clause matters for the number of its token only. -/
theorem alike_walkTyped {colon otherColon : NumberedToken} {otherPassed : List NumberedToken}
    (sameColon : colon.token = otherColon.token) (indistinct : Indistinct passed otherPassed)
    (read : State × Option String × Nat) :
    Alike (fun first second => second.map unnumbered = first.map unnumbered)
      (walkTyped colon passed after read) (walkTyped otherColon otherPassed after read) := by
  obtain ⟨found, type, count⟩ := read
  cases type with
  | none => exact .failing ..
  | some type =>
    have token : (typeToken otherColon type).unnumbered = (typeToken colon type).unnumbered := by
      simp only [typeToken, NumberedToken.inRole, unnumbered, sameColon]
    have states := renumbered_write (Agrees.refl found) token
    have typed : Renumbered { found.write (typeToken colon type) with typed := true }
        { found.write (typeToken otherColon type) with typed := true } :=
      ⟨states.images, rfl, rfl, rfl, rfl⟩
    exact alike_walk typed indistinct count

/-- The same modifiers in other places behind the name have the same effect. -/
theorem alike_qualifiers (kinds : definition.WellKinded NumberedToken.kind)
    (otherKinds : other.WellKinded NumberedToken.kind)
    (sameModifiers : (definition.allModifiers.map NumberedToken.kind).Perm
      (other.allModifiers.map NumberedToken.kind))
    (sameType : (typeParts definition).map (Prod.map NumberedToken.token NumberedToken.token) =
      (typeParts other).map (Prod.map NumberedToken.token NumberedToken.token))
    (long : (qualifiers definition).length = (qualifiers other).length)
    (isName : name.kind = .identifier) (named : Named state name) :
    Alike (fun first second => second.map unnumbered = first.map unnumbered)
      (walk state (name :: passed) 0 (qualifiers definition ++ after))
      (walk state (name :: passed) 0 (qualifiers other ++ after)) := by
  obtain ⟨⟨earlier, written⟩, modifiable, untyped⟩ := named
  have latest : LatestName state (name.inRole .identifier) earlier := ⟨modifiable, written, rfl⟩
  by_cases compatible : Compatible NumberedToken.kind definition.allModifiers
  swap
  · obtain ⟨modifier, clash⟩ := @clash_qualifiers definition state name (name :: passed) after kinds
      earlier latest untyped compatible
    obtain ⟨otherModifier, otherClash⟩ := @clash_qualifiers other state name (name :: passed) after
      otherKinds earlier latest untyped
      (fun fits => compatible ((compatible_perm sameModifiers).mpr fits))
    rw [clash, otherClash]
    exact .failing ..
  have indistinct := @indistinct_qualifiers definition other name passed kinds otherKinds isName long
  rw [walk_qualifiers kinds latest untyped compatible,
    walk_qualifiers otherKinds latest untyped ((compatible_perm sameModifiers).mp compatible),
    ← withModifiers_perm sameModifiers]
  unfold typeParts at sameType
  cases ownClause : definition.clause with
  | none =>
    cases foreignClause : other.clause with
    | none => exact alike_walk (.refl _) indistinct 0
    | some otherClause => simp [ownClause, foreignClause] at sameType
  | some clause =>
    cases foreignClause : other.clause with
    | none => simp [ownClause, foreignClause] at sameType
    | some otherClause =>
      simp only [ownClause, foreignClause, Option.map_some, Prod.map_apply, Option.some.injEq,
        Prod.mk.injEq] at sameType
      obtain ⟨sameColon, sameName⟩ := sameType
      have literal : otherClause.type.literal = clause.type.literal := by
        rw [NumberedToken.literal, ← sameName]
        rfl
      simp only [literal]
      exact Alike.refl.bind_eq fun read => alike_walkTyped sameColon indistinct read

end Walking

/-! ## Token lists -/

section Lists

theorem countAfter_inLine {tokens : List Token} (inside : ∀ token ∈ tokens, inLine token.kind = true)
    (count : Nat) : NumberedToken.countAfter count tokens = count + tokens.length := by
  induction tokens generalizing count with
  | nil => rfl
  | cons token tokens inductionHypothesis =>
    have noNewline : token.kind ≠ .newline := kind_ne_of_test (inside token (by simp)) rfl
    rw [NumberedToken.countAfter, if_neg noNewline,
      inductionHypothesis fun other member => inside other (by simp [member]), List.length_cons]
    omega

/-- A definition whose qualifiers are numbered from some place on. -/
theorem exists_numbered (definition : Definition Token) (count : Nat) :
    ∃ numbered : Definition NumberedToken,
      qualifiers numbered = NumberedToken.ofTokens count (qualifiers definition) ∧
      numbered.map NumberedToken.token = definition := by
  obtain ⟨path, modifiers, clause⟩ := definition
  have place : (path.map fun token => (⟨token, 0⟩ : NumberedToken)).map NumberedToken.token = path := by
    simp [Grammar.Path.map, Function.comp_def]
  cases clause with
  | none =>
    refine ⟨⟨path.map (⟨·, 0⟩), NumberedToken.ofTokens count modifiers, none⟩, ?_, ?_⟩
    · simp [qualifiers]
    · simp [Definition.map, place]
  | some clause =>
    obtain ⟨lifted, leaves, image⟩ := TypeClause.exists_of_leaves
      (NumberedToken.map_token_ofTokens (NumberedToken.countAfter count modifiers) clause.leaves)
    refine ⟨⟨path.map (⟨·, 0⟩), NumberedToken.ofTokens count modifiers, some lifted⟩, ?_, ?_⟩
    · simp [qualifiers, NumberedToken.ofTokens_append, leaves]
    · simp [Definition.map, place, image]

/-- The tokens in front of the name of a definition. -/
def route (before : List Token) (path : Path Token) : List Token :=
  before ++ path.outer.flatMap fun (name, arrow) => [name, arrow]

variable {before after : List Token} {definition : Definition Token}

theorem split_definition :
    before ++ definition.leaves ++ after =
      route before definition.path ++ definition.path.last :: (qualifiers definition ++ after) := by
  simp [route, qualifiers, Definition.leaves, Path.leaves]

theorem inLine_qualifiers (kinds : definition.WellKinded Token.kind) :
    ∀ token ∈ qualifiers definition, inLine token.kind = true := by
  intro token member
  refine Definition.inLine kinds token ?_
  simp only [qualifiers, List.mem_append] at member
  simp only [Definition.leaves, List.mem_append]
  rcases member with member | member
  · exact .inl (.inr member)
  · exact .inr member

/-- The numbers behind a definition do not depend on the order of its tokens. -/
theorem numbered_definition (kinds : definition.WellKinded Token.kind) :
    NumberedToken.ofTokens 0 (before ++ definition.leaves ++ after) =
      NumberedToken.ofTokens 0 (route before definition.path) ++
        ⟨definition.path.last, NumberedToken.countAfter 0 (route before definition.path) + 1⟩ ::
          (NumberedToken.ofTokens (NumberedToken.countAfter 0 (route before definition.path) + 1)
              (qualifiers definition) ++
            NumberedToken.ofTokens (NumberedToken.countAfter 0 (route before definition.path) + 1 +
              (qualifiers definition).length) after) := by
  have noNewline : definition.path.last.kind ≠ .newline := by
    simp [show definition.path.last.kind = .identifier from kinds.1.2]
  rw [split_definition, NumberedToken.ofTokens_append, NumberedToken.ofTokens, if_neg noNewline,
    NumberedToken.ofTokens_append, countAfter_inLine (inLine_qualifiers kinds)]

/-- The path of the name assigns nothing. -/
theorem assignedAfter_route {path : Path Token} (kinds : path.WellKinded Token.kind)
    (unassigned : assignedAfter false (before.map Token.kind) = false) (count : Nat) :
    assignedAfter false (Annotations.kinds (NumberedToken.ofTokens count (route before path))) =
      false := by
  have images : Annotations.kinds (NumberedToken.ofTokens count (route before path)) =
      (route before path).map Token.kind := by
    have tokens := congrArg (List.map Token.kind)
      (NumberedToken.map_token_ofTokens count (route before path))
    rwa [List.map_map] at tokens
  have quiet : ∀ kind ∈ (path.outer.flatMap fun (name, arrow) => [name, arrow]).map Token.kind,
      isQuiet kind = true := by
    simp only [List.forall_mem_map, List.forall_mem_flatMap]
    intro link member
    obtain ⟨isName, isArrow⟩ := kinds.1 link member
    simp [isName, isArrow, isQuiet, endsStatement]
  have behind := @assignedAfter_quiet false _ quiet []
  rw [List.append_nil] at behind
  rw [images, route, List.map_append, assignedAfter_append, unassigned, behind]
  rfl

theorem ends_definition (kinds : definition.WellKinded Token.kind) :
    (before ++ definition.leaves ++ after).getLast?.any (·.kind = .endOfInput) =
      after.getLast?.any (·.kind = .endOfInput) := by
  cases last : after.getLast? with
  | some token => simp [List.getLast?_append, last]
  | none =>
    have nonempty : definition.leaves ≠ [] := by simp [Definition.leaves, Path.leaves]
    have final := List.getLast?_eq_some_getLast nonempty
    have inside := Definition.inLine kinds _ (List.getLast_mem nonempty)
    have goesOn : (definition.leaves.getLast nonempty).kind ≠ .endOfInput :=
      kind_ne_of_test inside rfl
    simp [List.getLast?_append, last, final, goesOn]

end Lists

/-- Definitions of one name that differ only in the places and the order of their modifiers. -/
structure Rearranged (first second : Definition Token) : Prop where
  firstKinds : first.WellKinded Token.kind
  secondKinds : second.WellKinded Token.kind
  path : second.path = first.path
  type : typeParts second = typeParts first
  modifiers : (first.allModifiers.map Token.kind).Perm (second.allModifiers.map Token.kind)

section Rearranged

variable {before after : List Token} {first second : Definition Token}

theorem Rearranged.length_eq (rearranged : Rearranged first second) :
    (qualifiers first).length = (qualifiers second).length := by
  have long := rearranged.modifiers.length_eq
  simp only [List.length_map] at long
  rw [length_qualifiers, length_qualifiers, long, rearranged.type]

theorem typeParts_map {α β : Type} (function : α → β) (definition : Definition α) :
    typeParts (definition.map function) = (typeParts definition).map (Prod.map function function) := by
  obtain ⟨path, modifiers, clause⟩ := definition
  cases clause <;> rfl

/-- Modifiers in other places and in another order make no difference. -/
theorem Rearranged.walks (rearranged : Rearranged first second)
    (unassigned : assignedAfter false (before.map Token.kind) = false) :
    Alike (fun written other => other.map unnumbered = written.map unnumbered)
      (walk {} [] 0 (NumberedToken.ofTokens 0 (before ++ first.leaves ++ after)))
      (walk {} [] 0 (NumberedToken.ofTokens 0 (before ++ second.leaves ++ after))) := by
  have isName : first.path.last.kind = .identifier := rearranged.firstKinds.1.2
  rw [numbered_definition rearranged.firstKinds, numbered_definition rearranged.secondKinds,
    rearranged.path, rearranged.length_eq]
  generalize counted : NumberedToken.countAfter 0 (route before first.path) + 1 = count
  obtain ⟨numbered, qualified, image⟩ := exists_numbered first count
  obtain ⟨other, otherQualified, otherImage⟩ := exists_numbered second count
  rw [← qualified, ← otherQualified]
  have kinds : numbered.WellKinded NumberedToken.kind := by
    have kinds := rearranged.firstKinds
    rwa [← image, Definition.wellKinded_map] at kinds
  have otherKinds : other.WellKinded NumberedToken.kind := by
    have kinds := rearranged.secondKinds
    rwa [← otherImage, Definition.wellKinded_map] at kinds
  have sameModifiers : (numbered.allModifiers.map NumberedToken.kind).Perm
      (other.allModifiers.map NumberedToken.kind) := by
    have same := rearranged.modifiers
    rwa [← image, ← otherImage, Definition.allModifiers_map, Definition.allModifiers_map,
      List.map_map, List.map_map] at same
  have sameType : (typeParts numbered).map (Prod.map NumberedToken.token NumberedToken.token) =
      (typeParts other).map (Prod.map NumberedToken.token NumberedToken.token) := by
    rw [← typeParts_map, ← typeParts_map, image, otherImage, rearranged.type]
  have long : (qualifiers numbered).length = (qualifiers other).length := by
    rw [qualified, otherQualified, NumberedToken.length_ofTokens, NumberedToken.length_ofTokens,
      rearranged.length_eq]
  have tracked := assignedAfter_route rearranged.firstKinds.1 unassigned 0
  by_cases empty : qualifiers numbered = []
  · rw [empty, List.length_nil, eq_comm, List.length_eq_zero_iff] at long
    rw [empty, long]
    exact alike_walk (.refl _) (.refl _) 0
  have otherNonempty : qualifiers other ≠ [] := by
    intro otherEmpty
    rw [otherEmpty, List.length_nil, List.length_eq_zero_iff] at long
    exact empty long
  have isNumbered : NumberedToken.kind ⟨first.path.last, count⟩ = .identifier := isName
  rcases walk_toName isNumbered (qualifying_qualifiers kinds empty)
    (qualifying_qualifiers otherKinds otherNonempty) _ orderly_initial tracked with
    same | ⟨next, named, goesOn⟩
  · rw [same]
    exact alike_walk (.refl _) (.refl _) 0
  · rw [goesOn _ (by simp), goesOn _ (by simp)]
    exact alike_qualifiers kinds otherKinds sameModifiers sameType long isNumbered named

/-- Conflicting modifiers are refused if the loop comes to them. -/
theorem clash_definition {definition : Definition Token}
    (kinds : definition.WellKinded Token.kind)
    (unassigned : assignedAfter false (before.map Token.kind) = false)
    (conflict : ¬ Compatible Token.kind definition.allModifiers)
    (ends : after.getLast?.any (·.kind = .endOfInput) = true)
    (reached : Cursor.Reaches (NumberedToken.ofTokens 0 (before ++ definition.leaves ++ after))
      (before ++ definition.path.leaves).length) :
    ∃ line token, annotate (before ++ definition.leaves ++ after) =
      fail (.conflictingModifiers definition.path.last.literal) line token := by
  obtain ⟨state, turns⟩ := reached
  have walked : annotate (before ++ definition.leaves ++ after) =
      Cursor.loop (NumberedToken.ofTokens 0 (before ++ definition.leaves ++ after)) {} 0 := by
    rw [annotate, if_pos (by rw [ends_definition kinds, ends])]
    exact (Cursor.loop_eq {} [] _).symm
  rw [walked, Cursor.loop_of_turns turns]
  rw [numbered_definition kinds] at turns ⊢
  generalize counted : NumberedToken.countAfter 0 (route before definition.path) + 1 = count at turns ⊢
  generalize NumberedToken.ofTokens (count + (qualifiers definition).length) after = rest at turns ⊢
  obtain ⟨numbered, qualified, image⟩ := exists_numbered definition count
  rw [← qualified] at turns ⊢
  have numberedKinds : numbered.WellKinded NumberedToken.kind := by
    rwa [← image, Definition.wellKinded_map] at kinds
  have numberedConflict : ¬ Compatible NumberedToken.kind numbered.allModifiers := by
    rwa [← image, Definition.allModifiers_map, compatible_map] at conflict
  have nonempty : qualifiers numbered ≠ [] := by
    intro empty
    have long := length_qualifiers numbered
    rw [empty, List.length_nil, eq_comm, Nat.add_eq_zero_iff, List.length_eq_zero_iff] at long
    rw [long.1] at numberedConflict
    simp [Compatible] at numberedConflict
  have isName : NumberedToken.kind ⟨definition.path.last, count⟩ = .identifier := kinds.1.2
  have tracked := assignedAfter_route kinds.1 unassigned 0
  have long := NumberedToken.length_ofTokens 0 (route before definition.path)
  generalize NumberedToken.ofTokens 0 (route before definition.path) = front at turns tracked long ⊢
  have cursor : (before ++ definition.path.leaves).length = front.length + 1 := by
    simp [long, route, Path.leaves]
    omega
  rw [cursor] at turns ⊢
  have named := @named_of_turns rest (qualifiers numbered) ⟨definition.path.last, count⟩ isName
    (qualifying_qualifiers numberedKinds nonempty) front {} state [] orderly_initial tracked
    (by simpa using turns)
  obtain ⟨⟨earlier, written⟩, modifiable, untyped⟩ := named
  have onward := Cursor.loop_eq state (⟨definition.path.last, count⟩ :: front.reverse)
    (qualifiers numbered ++ rest)
  simp only [List.reverse_cons, List.reverse_reverse, List.append_assoc, List.singleton_append,
    List.length_cons, List.length_reverse] at onward
  obtain ⟨modifier, clash⟩ := @clash_qualifiers numbered state ⟨definition.path.last, count⟩
    (⟨definition.path.last, count⟩ :: front.reverse) rest numberedKinds earlier ⟨modifiable, written, rfl⟩
    untyped numberedConflict
  rw [onward, clash]
  exact ⟨_, _, rfl⟩

/-- Modifiers in other places and in another order make no difference: the same is written up to
the numbers of tokens, or the failure has the same cause.  Where the loop comes to the modifiers,
those that conflict are refused. -/
theorem annotate_rearranged (rearranged : Rearranged first second)
    (unassigned : assignedAfter false (before.map Token.kind) = false) :
    Alike (fun written other => other.map unnumbered = written.map unnumbered)
        (annotate (before ++ first.leaves ++ after)) (annotate (before ++ second.leaves ++ after)) ∧
      (.muta ∈ first.allModifiers.map Token.kind → .const ∈ first.allModifiers.map Token.kind →
        after.getLast?.any (·.kind = .endOfInput) = true →
        Cursor.Reaches (NumberedToken.ofTokens 0 (before ++ first.leaves ++ after))
          (before ++ first.path.leaves).length →
        ∀ definition ∈ [first, second], ∃ line token,
          annotate (before ++ definition.leaves ++ after) =
            fail (.conflictingModifiers first.path.last.literal) line token) := by
  have alike : Alike (fun written other => other.map unnumbered = written.map unnumbered)
      (annotate (before ++ first.leaves ++ after)) (annotate (before ++ second.leaves ++ after)) := by
    simp only [annotate, ends_definition rearranged.firstKinds, ends_definition rearranged.secondKinds]
    split
    · exact rearranged.walks unassigned
    · exact .failing ..
  refine ⟨alike, fun mutable constant ends reached => ?_⟩
  have conflict : ¬ Compatible Token.kind first.allModifiers := by
    obtain ⟨muta, mutaMember, isMuta⟩ := List.mem_map.mp mutable
    obtain ⟨const, constMember, isConst⟩ := List.mem_map.mp constant
    exact fun compatible => compatible
      ⟨List.any_eq_true.mpr ⟨muta, mutaMember, by simp [isMuta]⟩,
        List.any_eq_true.mpr ⟨const, constMember, by simp [isConst]⟩⟩
  obtain ⟨line, token, failed⟩ := clash_definition rearranged.firstKinds unassigned conflict ends
    reached
  rw [failed] at alike
  obtain ⟨otherLine, otherToken, otherFailed⟩ := alike.fail_left
  simp only [List.forall_mem_cons, List.not_mem_nil, false_imp_iff, implies_true, and_true]
  exact ⟨⟨line, token, failed⟩, ⟨otherLine, otherToken, otherFailed⟩⟩

/-- `a muta temp : int = b` and `a : muta int temp = b` are annotated alike, and both of
`a muta const : int` and `a : const int muta` are refused. -/
theorem annotate_rearranged_across_colon :
    let name : Token := ⟨.identifier, "a", 1, 1⟩
    let mutable : Token := ⟨.muta, "muta", 1, 3⟩
    let temporary : Token := ⟨.temp, "temp", 1, 8⟩
    let constant : Token := ⟨.const, "const", 1, 8⟩
    let colon : Token := ⟨.colon, ":", 1, 14⟩
    let type : Token := ⟨.typeName, "int", 1, 16⟩
    let finish : Token := ⟨.endOfInput, "", 1, 24⟩
    let after : List Token := [⟨.equals, "=", 1, 20⟩, ⟨.identifier, "b", 1, 22⟩, finish]
    (∃ written other,
      annotate ([name, mutable, temporary, colon, type] ++ after) = .ok written ∧
      annotate ([name, colon, mutable, type, temporary] ++ after) = .ok other ∧
      other.map unnumbered = written.map unnumbered) ∧
    (∃ line token, annotate [name, mutable, constant, colon, type, finish] =
      fail (.conflictingModifiers "a") line token) ∧
    ∃ line token, annotate [name, colon, constant, type, mutable, finish] =
      fail (.conflictingModifiers "a") line token := by
  intro name mutable temporary constant colon type finish after
  let path : Path Token := ⟨[], name⟩
  have outside : assignedAfter false (([] : List Token).map Token.kind) = false := rfl
  have compatible := @annotate_rearranged [] after
    ⟨path, [mutable, temporary], some ⟨colon, [], type, []⟩⟩
    ⟨path, [], some ⟨colon, [mutable], type, [temporary]⟩⟩
    ⟨by simp [path, Definition.WellKinded, Path.WellKinded, TypeClause.WellKinded, Modifiers,
        TokenKind.isModifier, name, mutable, temporary, colon, type],
      by simp [path, Definition.WellKinded, Path.WellKinded, TypeClause.WellKinded, Modifiers,
        TokenKind.isModifier, name, mutable, temporary, colon, type],
      rfl, rfl, .refl _⟩ outside
  have conflicting := @annotate_rearranged [] [finish]
    ⟨path, [mutable, constant], some ⟨colon, [], type, []⟩⟩
    ⟨path, [], some ⟨colon, [constant], type, [mutable]⟩⟩
    ⟨by simp [path, Definition.WellKinded, Path.WellKinded, TypeClause.WellKinded, Modifiers,
        TokenKind.isModifier, name, mutable, constant, colon, type],
      by simp [path, Definition.WellKinded, Path.WellKinded, TypeClause.WellKinded, Modifiers,
        TokenKind.isModifier, name, mutable, constant, colon, type],
      rfl, rfl, .swap ..⟩ outside
  have turned := Cursor.turn_eq {} ⟨name, 1⟩ []
    (NumberedToken.ofTokens 1 [mutable, constant, colon, type, finish])
  have refused := conflicting.2 (.head _) (.tail _ (.head _)) rfl ⟨_, .single turned⟩
  obtain ⟨written, annotated⟩ : ∃ written,
      annotate ([name, mutable, temporary, colon, type] ++ after) = .ok written := ⟨_, rfl⟩
  have alike : Alike _ (annotate ([name, mutable, temporary, colon, type] ++ after))
      (annotate ([name, colon, mutable, type, temporary] ++ after)) := compatible.1
  rw [annotated] at alike
  obtain ⟨other, otherAnnotated, same⟩ := alike.ok_left
  exact ⟨⟨written, other, annotated, otherAnnotated, same⟩, refused _ (.head _),
    refused _ (.tail _ (.head _))⟩

/-- A token before the name may fail first: `) a muta const` is refused for its parenthesis. -/
theorem conflict_behind_parenthesis :
    let before : List Token := [⟨.rightParen, ")", 1, 1⟩]
    let definition : Definition Token :=
      ⟨⟨[], ⟨.identifier, "a", 1, 3⟩⟩, [⟨.muta, "muta", 1, 5⟩, ⟨.const, "const", 1, 10⟩], none⟩
    let after : List Token := [⟨.endOfInput, "", 1, 15⟩]
    Rearranged definition definition ∧ assignedAfter false (before.map Token.kind) = false ∧
      .muta ∈ definition.allModifiers.map Token.kind ∧
      .const ∈ definition.allModifiers.map Token.kind ∧
      annotate (before ++ definition.leaves ++ after) = fail (.misplacedToken ")") (some 1) (some 1) ∧
      ¬ ∃ line token, annotate (before ++ definition.leaves ++ after) =
        fail (.conflictingModifiers definition.path.last.literal) line token := by
  intro before definition after
  have kinds : definition.WellKinded Token.kind := by
    simp [definition, Definition.WellKinded, Path.WellKinded, Modifiers, TokenKind.isModifier]
  have refused : annotate (before ++ definition.leaves ++ after) =
      fail (.misplacedToken ")") (some 1) (some 1) := rfl
  refine ⟨⟨kinds, kinds, rfl, rfl, .refl _⟩, rfl, .head _, .tail _ (.head _), refused, ?_⟩
  rintro ⟨line, token, conflict⟩
  rw [refused] at conflict
  cases conflict

end Rearranged

end ParaLang.Annotations
