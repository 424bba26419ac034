import ParaLang.Proofs.Interpretation.Growth
import ParaLang.Proofs.Scope.Likeness

/-! # Variables that last

Temporary variables are there for a run only.  Another tree lasts from a tree if it holds the same
variables but for the temporary ones; writing a variable that is not temporary to both of them, or a
temporary one to the first, keeps it so. -/

namespace ParaLang

/-- A value that has been converted to a type is not converted again. -/
theorem Value.coerce_coerced {value converted : Value} {declared : Option String}
    (coerced : value.coerce declared = .ok converted) : converted.coerce declared = .ok converted := by
  cases declared with
  | none => rfl
  | some type =>
    unfold Value.coerce at coerced
    simp only at coerced
    split at coerced
    · next fits =>
      cases coerced
      exact if_pos fits
    · split at coerced
      · split at coerced
        · next isFloat =>
          split at coerced <;> cases coerced
          exact if_pos (.inr isFloat.symm)
        · cases coerced
      · cases coerced

namespace Scope

variable {root changed there : Scope} {assignment : Assignment} {entry : Variable}

theorem coerceFor_coerced {value : Value} (coerced : coerceFor assignment = .ok value) :
    coerceFor { assignment with value := some value } = .ok value := by
  unfold coerceFor at coerced
  split at coerced
  · split at coerced <;> cases coerced
  · split at coerced
    · next converted isConverted =>
      cases coerced
      simp only [coerceFor, Value.coerce_coerced isConverted]
    · cases coerced
    · cases coerced

/-- Where nothing is yet, an assignment writes the same as elsewhere, also if it brings the value
that has been written there. -/
theorem exists_assign_there (assigned : root.assign assignment = .ok (entry, changed))
    (fresh : root.find? assignment.path = none) (freshThere : there.find? assignment.path = none)
    {value : Option Value} (same : value = assignment.value ∨ value = some entry.value) :
    ∃ last, there.assign { assignment with value := value } = .ok (entry, last) := by
  obtain ⟨groups, name, ends, given, -⟩ := exists_entry assigned
  rw [fresh] at given
  have givenThere : entryFor none name { assignment with value := value } = .ok entry := by
    rcases same with rfl | rfl
    · exact given
    · obtain ⟨converted, coerced, written⟩ := Result.bind_eq_ok_iff.mp given
      cases written
      have again := coerceFor_coerced coerced
      change (coerceFor { assignment with value := some converted } >>= _) = _
      rw [again]
      rfl
  have ofThere := @assign_eq { assignment with value := value } groups name ends there
  simp only [freshThere, givenThere] at ofThere
  exact ⟨_, ofThere⟩

/-- The other tree holds the variables of a tree that are not temporary, and no others. -/
def LastsIn (root other : Scope) : Prop :=
  ∀ path, other.find? path = (root.find? path).filter (!·.temp)

theorem find?_empty (path : List String) : find? {} path = none := by
  rcases List.eq_nil_or_concat' path with rfl | ⟨groups, name, rfl⟩
  · rfl
  · rw [find?_snoc]
    cases groups <;> rfl

theorem lastsIn_empty : LastsIn {} {} := by
  intro path
  rw [find?_empty]
  rfl

theorem find?_assign_self (assigned : root.assign assignment = .ok (entry, changed)) :
    changed.find? assignment.path = some entry := by
  obtain ⟨groups, name, ends, -, rfl⟩ := assign_ok assigned
  rw [ends, find?_put_self]

theorem lastsIn_assign {other : Assignment} {last : Scope} (lasts : root.LastsIn there)
    (assigned : root.assign assignment = .ok (entry, changed))
    (assignedThere : there.assign other = .ok (entry, last)) (samePath : other.path = assignment.path)
    (lasting : entry.temp = false) : changed.LastsIn last := by
  intro path
  by_cases written : path = assignment.path
  · subst written
    rw [find?_assign_self assigned, ← samePath, find?_assign_self assignedThere]
    simp [Option.filter, lasting]
  · rw [find?_assign_of_ne assigned written,
      find?_assign_of_ne assignedThere (samePath ▸ written), lasts]

theorem lastsIn_assign_temporary (lasts : root.LastsIn there)
    (assigned : root.assign assignment = .ok (entry, changed))
    (fresh : root.find? assignment.path = none) (temporary : entry.temp = true) :
    changed.LastsIn there := by
  intro path
  by_cases written : path = assignment.path
  · subst written
    rw [find?_assign_self assigned, lasts, fresh]
    simp [Option.filter, temporary]
  · rw [find?_assign_of_ne assigned written, lasts]

/-! ## Variables for good -/

/-- None of the variables can be assigned to again. -/
def Immutable (root : Scope) : Prop :=
  ∀ path entry, root.find? path = some entry → entry.mutable = false

theorem immutable_empty : Immutable {} := by
  intro path entry found
  rw [find?_empty] at found
  cases found

/-- Where all variables are there for good, nothing is at the path of an assignment. -/
theorem Immutable.fresh (immutable : root.Immutable)
    (assigned : root.assign assignment = .ok (entry, changed)) :
    root.find? assignment.path = none := by
  cases found : root.find? assignment.path with
  | none => rfl
  | some current =>
    rw [assign_immutable found (immutable _ _ found)] at assigned
    cases assigned

theorem Immutable.assign (immutable : root.Immutable)
    (assigned : root.assign assignment = .ok (entry, changed)) (unchangeable : assignment.mutable = false) :
    changed.Immutable := by
  intro path found isFound
  by_cases written : path = assignment.path
  · subst written
    rw [find?_assign_self assigned] at isFound
    cases isFound
    obtain ⟨groups, name, ends, writes, -⟩ := assign_ok assigned
    rw [(writes.fresh (immutable.fresh assigned)).2.1, unchangeable]
  · exact immutable path found ((find?_assign_of_ne assigned written).symm.trans isFound)

/-- The variables of a tree are still there in another one. -/
def Keeps (root tree : Scope) : Prop :=
  ∀ path entry, root.find? path = some entry → tree.find? path = some entry

theorem Immutable.keeps {tree : Scope} (immutable : root.Immutable) (grows : root.Grows tree) :
    root.Keeps tree :=
  fun path entry found => grows.immutable found (immutable path entry found)

end Scope

end ParaLang
