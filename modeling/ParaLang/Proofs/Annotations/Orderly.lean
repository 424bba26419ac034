import ParaLang.Proofs.Annotations.Reading

/-! # States in order

What every step of annotation keeps: a name that can be modified stands at the end of its path, and
a type belongs to a name.  So a name that is accepted starts with no modifiers and no type. -/

namespace ParaLang.Annotations

/-! ## Order -/

/-- What holds of every state of annotation: a name that can be modified is the end of its path,
and a type belongs to a name. -/
structure Orderly (state : State) : Prop where
  complete : state.modifiable = true →
    ∃ last earlier, state.output = last :: earlier ∧ last.role ≠ .arrow ∧ last.role ≠ .group
  untyped : state.assigned = false → state.named = false → state.typed = false

/-- The state behind a name that can be modified. -/
structure Named (state : State) (name : NumberedToken) : Prop where
  written : ∃ earlier, state.output = name.inRole .identifier :: earlier
  modifiable : state.modifiable = true
  untyped : state.typed = false

section Orderly

variable {state other : State} {passed rest : List NumberedToken} {place : NumberedToken}
  {count : Nat}

theorem orderly_initial : Orderly {} :=
  ⟨fun modifiable => (by cases modifiable), fun _ _ => rfl⟩

theorem Orderly.newStatement (state : State) : Orderly state.newStatement :=
  ⟨fun modifiable => (by simp [State.modifiable, State.newStatement] at modifiable),
    fun _ _ => rfl⟩

theorem Orderly.write_unmodifiable (orderly : Orderly state) (fixed : state.modifiable = false)
    (token : AnnotatedToken) : Orderly (state.write token) :=
  ⟨fun modifiable => (by
    rw [show (state.write token).modifiable = state.modifiable from rfl, fixed] at modifiable
    cases modifiable), orderly.untyped⟩

/-- A name is refused where another one can still be modified. -/
theorem Orderly.unmodifiable (orderly : Orderly state)
    (open_ : ¬ (state.modifiable = true ∧ state.startsPath = true)) : state.modifiable = false := by
  cases modifiable : state.modifiable with
  | false => rfl
  | true =>
    obtain ⟨last, earlier, written, noArrow, -⟩ := orderly.complete modifiable
    refine absurd ⟨modifiable, ?_⟩ open_
    simpa [State.startsPath, written] using noArrow

theorem modifyLatest_roles {modifier : NumberedToken} {output written : List AnnotatedToken}
    (modified : modifyLatest modifier output = .ok written) :
    written.map AnnotatedToken.role = output.map AnnotatedToken.role := by
  induction output generalizing written with
  | nil => cases modified
  | cons token earlier inductionHypothesis =>
    unfold modifyLatest at modified
    split at modified
    · simp only at modified
      split at modified
      · cases modified
      · cases modified
        simp
    · obtain ⟨later, further, same⟩ := Result.bind_eq_ok_iff.mp modified
      cases same
      simp [inductionHypothesis further]

/-- The states differ at most in what is written, and a view of the tokens there is the same. -/
structure Agrees {α : Type} (view : AnnotatedToken → α) (state other : State) : Prop where
  images : other.output.map view = state.output.map view
  frames : other.frames = state.frames
  assigned : other.assigned = state.assigned
  named : other.named = state.named
  typed : other.typed = state.typed

section Agrees

variable {α : Type} {view : AnnotatedToken → α} {state middle other : State}

theorem Agrees.refl (state : State) : Agrees view state state :=
  ⟨rfl, rfl, rfl, rfl, rfl⟩

theorem Agrees.trans (first : Agrees view state middle) (second : Agrees view middle other) :
    Agrees view state other :=
  ⟨second.images.trans first.images, second.frames.trans first.frames,
    second.assigned.trans first.assigned, second.named.trans first.named,
    second.typed.trans first.typed⟩

theorem Agrees.modifiable (agrees : Agrees view state other) :
    other.modifiable = state.modifiable := by
  rw [State.modifiable, agrees.named, agrees.assigned]
  rfl

end Agrees

/-- Modifiers change what is written, but no role. -/
abbrev Requalified : State → State → Prop :=
  Agrees AnnotatedToken.role

theorem readModifier_requalifies (read : readModifier state place = .ok other) :
    Requalified state other := by
  unfold readModifier at read
  split at read
  · obtain ⟨written, modified, same⟩ := Result.bind_eq_ok_iff.mp read
    cases same
    exact ⟨modifyLatest_roles modified, rfl, rfl, rfl, rfl⟩
  · cases read

theorem typeClause_requalifies {type found : Option String}
    (read : typeClause state type rest = .ok (other, found, count)) : Requalified state other := by
  induction rest generalizing state type count with
  | nil => cases read
  | cons place rest inductionHypothesis =>
    unfold typeClause at read
    split at read
    · split at read
      · cases read
      · obtain ⟨⟨middle, later, length⟩, further, same⟩ := Result.bind_eq_ok_iff.mp read
        cases same
        exact inductionHypothesis further
    split at read
    · obtain ⟨middle, modified, read⟩ := Result.bind_eq_ok_iff.mp read
      obtain ⟨⟨last, later, length⟩, further, same⟩ := Result.bind_eq_ok_iff.mp read
      cases same
      exact (readModifier_requalifies modified).trans (inductionHypothesis further)
    · cases read
      exact .refl _

theorem Orderly.requalified (orderly : Orderly state) (requalified : Requalified state other) :
    Orderly other := by
  refine ⟨fun modifiable => ?_, fun unassigned unnamed => ?_⟩
  · rw [requalified.modifiable] at modifiable
    obtain ⟨last, earlier, written, noArrow, noGroup⟩ := orderly.complete modifiable
    have roles := requalified.images
    rw [written, List.map_cons, List.map_eq_cons_iff] at roles
    obtain ⟨last', earlier', written', role, -⟩ := roles
    exact ⟨last', earlier', written', by rwa [role], by rwa [role]⟩
  · rw [requalified.typed]
    exact orderly.untyped (requalified.assigned ▸ unassigned) (requalified.named ▸ unnamed)

end Orderly

/-! ## Steps keep order -/

section Steps

variable {state other : State} {passed rest : List NumberedToken} {place : NumberedToken}
  {count : Nat}

theorem nameRole_cases {role : Role} (read : nameRole state rest = .ok role) :
    role = .group ∨ role = if state.assigned then .lookup else .identifier := by
  unfold nameRole at read
  split at read
  · cases read
  · split at read
    · split at read
      · cases read
      · split at read <;> cases read
        exact .inl rfl
    · cases read
      exact .inr rfl

/-- A name is passed over as part of a header, or it is written. -/
theorem readName_cases (read : readName state passed place rest = .ok (other, count)) :
    ¬ (state.modifiable = true ∧ state.startsPath = true) ∧
      (other = state ∨ ∃ role, nameRole state rest = .ok role ∧
        other = writeName state place role ∧ count = 0) := by
  have written (read : (do return (writeName state place (← nameRole state rest), 0)) =
      Except.ok (other, count)) :
      ∃ role, nameRole state rest = .ok role ∧ other = writeName state place role ∧ count = 0 := by
    obtain ⟨role, named, same⟩ := Result.bind_eq_ok_iff.mp read
    cases same
    exact ⟨role, named, rfl, rfl⟩
  simp only [readName] at read
  split at read
  · cases read
  rename_i fits
  refine ⟨fun both => fits (.inr both), ?_⟩
  split at read
  · cases read
  split at read
  · obtain ⟨header, measured, read⟩ := Result.bind_eq_ok_iff.mp read
    cases header with
    | none => exact .inr (written read)
    | some length =>
      cases read
      exact .inl rfl
  · exact .inr (written read)

theorem writeName_eq (state : State) (place : NumberedToken) (role : Role) :
    ∃ earlier, writeName state place role =
      { state with
        output := place.inRole role :: earlier, named := state.named || role == .identifier } := by
  unfold writeName
  cases state.startsPath <;> exact ⟨_, rfl⟩

theorem orderly_readName (orderly : Orderly state)
    (read : readName state passed place rest = .ok (other, count)) : Orderly other := by
  obtain ⟨open_, rfl | ⟨role, named, rfl, rfl⟩⟩ := readName_cases read
  · exact orderly
  have fixed := orderly.unmodifiable open_
  obtain ⟨earlier, written⟩ := writeName_eq state place role
  rw [written]
  rcases nameRole_cases named with rfl | rfl
  · refine ⟨fun modifiable => ?_, fun unassigned unnamed => orderly.untyped unassigned ?_⟩
    · simp_all [State.modifiable]
    · simpa using unnamed
  · cases assigned : state.assigned with
    | true => exact ⟨by simp [State.modifiable], by simp⟩
    | false => exact ⟨fun _ => ⟨_, _, rfl, by simp, by simp⟩, by simp⟩

theorem orderly_readColon (read : readColon state place rest = .ok (other, count)) : Orderly other := by
  unfold readColon at read
  split at read
  · rename_i fits
    obtain ⟨⟨middle, type, length⟩, clause, read⟩ := Result.bind_eq_ok_iff.mp read
    have named := (typeClause_requalifies clause).named
    cases type with
    | none => cases read
    | some type =>
      cases read
      have isNamed : middle.named = true := by
        rw [named]
        exact (Bool.and_eq_true_iff.mp fits.1).1
      refine ⟨fun _ => ⟨_, _, rfl, ?_, ?_⟩, fun _ unnamed => ?_⟩
      · simp [typeToken]
      · simp [typeToken]
      · exact absurd (isNamed.symm.trans unnamed) (by simp)
  · cases read

theorem readAssignment_assigns (read : readAssignment state place rest = .ok (other, count)) :
    other.assigned = true := by
  unfold readAssignment at read
  split at read
  · cases read
  simp only [Result.bind_eq_ok_iff] at read
  obtain ⟨run, -, read⟩ := read
  cases run with
  | nil => cases read
  | cons first more =>
    simp only at read
    split at read
    · obtain ⟨token, -, same⟩ := Result.bind_eq_ok_iff.mp read
      cases same
      rfl
    · cases read
      rfl

theorem orderly_readLiteral (orderly : Orderly state)
    (read : readLiteral state passed place = .ok other) : Orderly other := by
  simp only [readLiteral] at read
  split at read
  · cases read
  · rename_i fits
    obtain ⟨token, -, same⟩ := Result.bind_eq_ok_iff.mp read
    cases same
    refine orderly.write_unmodifiable ?_ token
    simpa using fun modifiable => fits (.inr (.inr modifiable))

theorem orderly_readArrow (orderly : Orderly state) (read : readArrow state place = .ok other) :
    Orderly other := by
  unfold readArrow at read
  split at read
  · cases read
  · rename_i last earlier written
    split at read
    · rename_i isGroup
      cases read
      refine orderly.write_unmodifiable ?_ _
      cases modifiable : state.modifiable with
      | false => rfl
      | true =>
        obtain ⟨last', _, written', -, noGroup⟩ := orderly.complete modifiable
        rw [written] at written'
        cases written'
        exact absurd isGroup noGroup
    · cases read

theorem readArrow_assigned (read : readArrow state place = .ok other) :
    other.assigned = state.assigned := by
  unfold readArrow at read
  split at read
  · cases read
  · split at read <;> cases read
    rfl

theorem readLiteral_assigned (read : readLiteral state passed place = .ok other) :
    other.assigned = state.assigned := by
  simp only [readLiteral] at read
  split at read
  · cases read
  · obtain ⟨token, -, same⟩ := Result.bind_eq_ok_iff.mp read
    cases same
    rfl

theorem openBlock_starts (read : openBlock state passed place = .ok other) :
    ∃ middle : State, other = middle.newStatement := by
  unfold openBlock at read
  split at read
  · cases read
  · cases read
    exact ⟨_, rfl⟩

theorem closeBlock_starts (read : closeBlock state place = .ok other) :
    ∃ middle : State, other = middle.newStatement := by
  unfold closeBlock at read
  split at read
  · cases read
  · cases read
    exact ⟨_, rfl⟩

theorem orderly_step (orderly : Orderly state)
    (stepped : step state passed place rest = .ok (other, count)) : Orderly other := by
  have single {read : Result State} (ends : (do return (← read, 0)) = Except.ok (other, count)) :
      read = .ok other := (single_eq_ok_iff.mp ends).1
  unfold step at stepped
  split at stepped
  case h_1 =>
    cases stepped
    exact .newStatement _
  case h_2 => exact orderly_readName orderly stepped
  case h_3 => exact orderly_readArrow orderly (single stepped)
  case h_4 => exact orderly_readColon stepped
  case h_5 | h_6 | h_7 => exact orderly.requalified (readModifier_requalifies (single stepped))
  case h_8 =>
    have assigned := readAssignment_assigns stepped
    exact ⟨by simp [State.modifiable, assigned], by simp [assigned]⟩
  case h_14 =>
    cases stepped
    exact ⟨by simp [State.modifiable], by simp⟩
  case h_15 =>
    obtain ⟨middle, rfl⟩ := openBlock_starts (single stepped)
    exact .newStatement middle
  case h_16 =>
    obtain ⟨middle, rfl⟩ := closeBlock_starts (single stepped)
    exact .newStatement middle
  case h_17 => cases stepped
  all_goals exact orderly_readLiteral orderly (single stepped)

end Steps

end ParaLang.Annotations
