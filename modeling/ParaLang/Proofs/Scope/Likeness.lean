import ParaLang.Proofs.Alike
import ParaLang.Proofs.Scope.Store

/-! # Trees with the same contents

Two trees have the same contents if they hold the same variables and scopes at every path, in
whatever order these were written.  Looking up, resolving and assigning do not tell such trees
apart, and two writes at different paths lead to such trees in either order. -/

namespace ParaLang.Scope

/-- Both trees hold the same variables and have the same scopes, insertion order aside. -/
structure SameContents (root other : Scope) : Prop where
  sameVariables : ∀ path, root.find? path = other.find? path
  sameScopes : ∀ path, (root.findScope? path).isSome = (other.findScope? path).isSome

variable {root other : Scope}

/-! ## Looking up -/

/-- Resolving a path succeeds with what is found at it. -/
theorem toOption_resolve (root : Scope) (path : List String) (line token : Option Int) :
    (root.resolve path line token).toOption = root.find? path := by
  rcases List.eq_nil_or_concat' path with rfl | ⟨groups, name, rfl⟩
  · rfl
  · rw [resolve_eq, List.getLast?_concat, List.dropLast_concat]
    cases missing : root.missingScope? groups with
    | some group =>
      rw [find?_snoc, findScope?_eq_none_iff.mpr (by simp [missing])]
      rfl
    | none => cases root.find? (groups ++ [name]) <;> rfl

/-- Which scope is missing is a matter of the scopes that are there. -/
theorem missingScope?_eq
    (scopes : ∀ path, (root.findScope? path).isSome = (other.findScope? path).isSome)
    (groups : List String) : root.missingScope? groups = other.missingScope? groups := by
  induction groups generalizing root other with
  | nil => rfl
  | cons group groups inductionHypothesis =>
    have here := scopes [group]
    have below := fun path => scopes (group :: path)
    simp only [findScope?] at here below
    rw [missingScope?_cons, missingScope?_cons]
    cases left : Table.get? root.scopes group with
    | none =>
      cases right : Table.get? other.scopes group with
      | none => rfl
      | some child => simp [left, right] at here
    | some child =>
      cases right : Table.get? other.scopes group with
      | none => simp [left, right] at here
      | some otherChild =>
        apply inductionHypothesis
        simpa [left, right] using below

theorem SameContents.resolve (same : root.SameContents other) (path : List String)
    (line token : Option Int) : root.resolve path line token = other.resolve path line token := by
  simp only [resolve_eq, missingScope?_eq same.sameScopes, same.sameVariables]

/-! ## Writing -/

/-- After a write there are the scopes on the way besides those that were there. -/
theorem isSome_put (root : Scope) (name : String) (entry : Variable) (groups path : List String) :
    ((root.put name entry groups).findScope? path).isSome =
      (decide (path <+: groups) || (root.findScope? path).isSome) := by
  rw [findScope?_put]
  by_cases onTheWay : path <+: groups <;> simp [onTheWay]

theorem SameContents.put (same : root.SameContents other) (name : String) (entry : Variable)
    (groups : List String) :
    (root.put name entry groups).SameContents (other.put name entry groups) where
  sameVariables path := by
    by_cases written : path = groups ++ [name]
    · rw [written, find?_put_self, find?_put_self]
    · rw [find?_put_of_ne _ _ _ written, find?_put_of_ne _ _ _ written, same.sameVariables]
  sameScopes path := by rw [isSome_put, isSome_put, same.sameScopes]

/-- Two writes at different paths can be done in either order. -/
theorem put_put (root : Scope) {groups otherGroups : List String} {name otherName : String}
    (entry otherEntry : Variable) (distinct : groups ++ [name] ≠ otherGroups ++ [otherName]) :
    ((root.put name entry groups).put otherName otherEntry otherGroups).SameContents
      ((root.put otherName otherEntry otherGroups).put name entry groups) where
  sameVariables path := by
    by_cases first : path = groups ++ [name]
    · rw [first, find?_put_of_ne _ _ _ distinct, find?_put_self, find?_put_self]
    · by_cases second : path = otherGroups ++ [otherName]
      · rw [second, find?_put_self, find?_put_of_ne _ _ _ distinct.symm, find?_put_self]
      · rw [find?_put_of_ne _ _ _ second, find?_put_of_ne _ _ _ first,
          find?_put_of_ne _ _ _ first, find?_put_of_ne _ _ _ second]
  sameScopes path := by
    rw [isSome_put, isSome_put, isSome_put, isSome_put, Bool.or_left_comm]

/-! ## Assigning -/

theorem SameContents.assign (same : root.SameContents other) (assignment : Assignment) :
    Alike (fun left right => left.1 = right.1 ∧ left.2.SameContents right.2)
      (root.assign assignment) (other.assign assignment) := by
  rcases List.eq_nil_or_concat' assignment.path with empty | ⟨groups, name, ends⟩
  · rw [assign_nil empty, assign_nil empty]
    exact Alike.failing _ _ _ _ _ _
  · rw [assign_eq ends, assign_eq ends, same.sameVariables]
    cases entryFor (other.find? assignment.path) name assignment with
    | error failure => exact rfl
    | ok entry => exact ⟨rfl, same.put name entry groups⟩

/-! ## Assigning twice -/

section Twice

variable {changed last : Scope} {first second : Assignment} {entry later : Variable}

theorem exists_entry (assigned : root.assign first = .ok (entry, changed)) :
    ∃ groups name, first.path = groups ++ [name] ∧
      entryFor (root.find? first.path) name first = .ok entry ∧
      changed = root.put name entry groups := by
  obtain ⟨groups, name, ends, -, rfl⟩ := assign_ok assigned
  refine ⟨groups, name, ends, ?_, rfl⟩
  rw [assign_eq ends] at assigned
  obtain ⟨written, given, same⟩ := Result.bind_eq_ok_iff.mp assigned
  cases same
  exact given

/-- An assignment changes nothing at other paths. -/
theorem find?_assign_of_ne (assigned : root.assign first = .ok (entry, changed))
    {path : List String} (distinct : path ≠ first.path) : changed.find? path = root.find? path := by
  obtain ⟨groups, name, ends, -, rfl⟩ := assign_ok assigned
  exact find?_put_of_ne _ _ _ (ends ▸ distinct)

/-- Assignments at different paths can be done in either order. -/
theorem exists_assign_exchanged (distinct : first.path ≠ second.path)
    (assigned : root.assign first = .ok (entry, changed))
    (assignedLater : changed.assign second = .ok (later, last)) :
    ∃ other turned, root.assign second = .ok (later, other) ∧
      other.assign first = .ok (entry, turned) ∧ last.SameContents turned := by
  have kept : changed.find? second.path = root.find? second.path :=
    find?_assign_of_ne assigned distinct.symm
  obtain ⟨groups, name, ends, given, rfl⟩ := exists_entry assigned
  obtain ⟨laterGroups, laterName, laterEnds, laterGiven, rfl⟩ := exists_entry assignedLater
  rw [kept] at laterGiven
  have apart : groups ++ [name] ≠ laterGroups ++ [laterName] := by rwa [← ends, ← laterEnds]
  refine ⟨root.put laterName later laterGroups, _, ?_, ?_, put_put root entry later apart⟩
  · rw [assign_eq laterEnds, laterGiven]
    rfl
  · rw [assign_eq ends, ends, find?_put_of_ne _ _ _ apart, ← ends, given]
    rfl

end Twice

end ParaLang.Scope
