import Mathlib.Data.List.Basic
import ParaLang.Scope
import ParaLang.Proofs.Result

/-! # The scope tree as a store

Writing a variable changes what is found at its own path and nowhere else, and it adds no scope
but those on the way to it.  What an assignment writes is said once, in `Scope.assign_ok`. -/

namespace ParaLang.Scope

/-! ## Looking up along a path -/

theorem find?_snoc (root : Scope) (groups : List String) (name : String) :
    root.find? (groups ++ [name]) =
      (root.findScope? groups).bind (Table.get? ·.entries name) := by
  simp [find?]

/-- A path at which a variable is found ends in a name. -/
theorem exists_snoc_of_find? {root : Scope} {path : List String} {entry : Variable}
    (found : root.find? path = some entry) : ∃ groups name, path = groups ++ [name] := by
  rcases List.eq_nil_or_concat' path with rfl | ⟨groups, name, rfl⟩
  · cases found
  · exact ⟨groups, name, rfl⟩

/-! ## Descending -/

/-- The two ways to walk along some groups lead to the same scope. -/
theorem toOption_descend (root : Scope) (groups : List String) :
    (root.descend groups).toOption = root.findScope? groups := by
  induction groups generalizing root with
  | nil => rfl
  | cons group groups inductionHypothesis =>
    rw [descend, findScope?]
    cases Table.get? root.scopes group with
    | none => rfl
    | some child => exact inductionHypothesis child

/-- The first name on the way that is no scope. -/
def missingScope? (root : Scope) (groups : List String) : Option String :=
  match root.descend groups with
  | .error group => some group
  | .ok _ => none

theorem missingScope?_cons (root : Scope) (group : String) (groups : List String) :
    root.missingScope? (group :: groups) =
      match Table.get? root.scopes group with
      | none => some group
      | some child => child.missingScope? groups := by
  rw [missingScope?, descend]
  cases Table.get? root.scopes group <;> rfl

theorem findScope?_eq_none_iff {root : Scope} {groups : List String} :
    root.findScope? groups = none ↔ (root.missingScope? groups).isSome = true := by
  rw [← toOption_descend, missingScope?]
  cases root.descend groups <;> simp [Except.toOption]

/-- Resolving a path is looking it up, with the reason why nothing is there. -/
theorem resolve_eq (root : Scope) (path : List String) (line token : Option Int) :
    root.resolve path line token =
      match path.getLast? with
      | none => fail .emptyPath line token
      | some name =>
        match root.missingScope? path.dropLast with
        | some group => fail (.scopeNotFound group) line token path
        | none =>
          match root.find? path with
          | some found => .ok found
          | none => fail (.variableNotFound name) line token path := by
  rcases List.eq_nil_or_concat' path with rfl | ⟨groups, name, rfl⟩
  · rfl
  · simp only [resolve, missingScope?, find?_snoc, ← toOption_descend, List.getLast?_concat,
      List.dropLast_concat]
    cases root.descend groups <;> rfl

/-- Where there is a name to look up, resolving fails because nothing is found. -/
theorem isNotFound_of_resolve {root : Scope} {path : List String} {line token : Option Int}
    {failure : Failure} (nonempty : path ≠ [])
    (fails : root.resolve path line token = .error failure) : failure.isNotFound = true := by
  obtain ⟨groups, name, rfl⟩ := (List.eq_nil_or_concat' path).resolve_left nonempty
  rw [resolve_eq, List.getLast?_concat] at fails
  split at fails
  · rename_i nothing
    cases nothing
  · split at fails
    · cases fails
      rfl
    · split at fails
      · cases fails
      · cases fails
        rfl

/-! ## Writing -/

/-- Where the groups lead and on the way there, the scope that was there holds the new variable,
below the groups that are left; a scope elsewhere stays as it was. -/
theorem findScope?_put (root : Scope) (name : String) (entry : Variable)
    (groups path : List String) :
    (root.put name entry groups).findScope? path =
      if path <+: groups then
        some (((root.findScope? path).getD {}).put name entry (groups.drop path.length))
      else root.findScope? path := by
  induction path generalizing root groups with
  | nil => simp [findScope?]
  | cons step path inductionHypothesis =>
    cases groups with
    | nil => simp [put, findScope?]
    | cons group groups =>
      by_cases same : step = group
      · subst same
        simp only [put, findScope?, Table.get?_insert_self, Option.bind_some, inductionHypothesis,
          List.cons_prefix_cons, true_and, List.length_cons, List.drop_succ_cons]
        cases Table.get? root.scopes step with
        | some child => rfl
        | none =>
          cases path <;> rfl
      · simp [put, findScope?, Table.get?_insert_of_ne _ _ same, same]

theorem find?_put_self (root : Scope) (name : String) (entry : Variable) (groups : List String) :
    (root.put name entry groups).find? (groups ++ [name]) = some entry := by
  simp [find?_snoc, findScope?_put, put]

/-- The variables of a scope after a write: one changes if the scope is the one written to. -/
theorem get?_put (scope : Scope) (name other : String) (entry : Variable) (groups : List String)
    (elsewhere : ¬(groups = [] ∧ other = name)) :
    Table.get? (scope.put name entry groups).entries other =
      Table.get? scope.entries other := by
  cases groups with
  | cons group groups => rfl
  | nil =>
    have distinct : other ≠ name := fun equal => elsewhere ⟨rfl, equal⟩
    exact Table.get?_insert_of_ne _ _ distinct

theorem find?_put_of_ne (root : Scope) (name : String) (entry : Variable)
    {groups path : List String} (distinct : path ≠ groups ++ [name]) :
    (root.put name entry groups).find? path = root.find? path := by
  rcases List.eq_nil_or_concat' path with rfl | ⟨front, last, rfl⟩
  · rfl
  · rw [find?_snoc, find?_snoc, findScope?_put]
    split
    case isFalse => rfl
    case isTrue onTheWay =>
      obtain ⟨below, rfl⟩ := onTheWay
      have elsewhere : ¬(below = [] ∧ last = name) := by
        rintro ⟨rfl, rfl⟩
        simp at distinct
      simp only [List.drop_left, Option.bind_some, get?_put _ _ _ _ _ elsewhere]
      cases root.findScope? front <;> rfl

/-- Creating the scopes first makes no difference to what a write leaves. -/
theorem put_openScopes (root : Scope) (name : String) (entry : Variable) (groups : List String) :
    (root.openScopes groups).put name entry groups = root.put name entry groups := by
  induction groups generalizing root with
  | nil => rfl
  | cons group groups inductionHypothesis =>
    simp only [openScopes, put, Table.get?_insert_self, Option.getD_some, inductionHypothesis,
      Table.insert_insert]

/-! ## Assigning -/

/-- The variable that an assignment to a name writes where `current` is found. -/
def entryFor (current : Option Variable) (name : String) (assignment : Assignment) :
    Result Variable :=
  if current.any (!·.mutable) then
    fail .immutableVariable assignment.line assignment.token assignment.path
  else do
    let value ← coerceFor assignment
    let type := Plain.string (assignedType assignment.type value)
    return match current with
      | some current => { current with value := value, type := type }
      | none => ⟨name, value, type, assignment.mutable, assignment.temp⟩

section CarryingOut

variable {assignment : Assignment} {groups : List String} {name : String}

theorem carryOut_nil (empty : assignment.path = []) (root : Scope) :
    root.carryOut assignment = (fail .noTarget assignment.line assignment.token, root) := by
  rw [carryOut, change, empty]
  rfl

/-- An assignment to a name writes a variable, or fails before it has changed anything. -/
theorem carryOut_snoc (ends : assignment.path = groups ++ [name]) (root : Scope) :
    root.carryOut assignment =
      match entryFor (root.find? assignment.path) name assignment with
      | .ok entry => (.ok entry, root.put name entry groups)
      | .error failure => (.error failure, root) := by
  have read : (get : Change Scope).run.run root = (.ok root, root) := rfl
  rw [carryOut, change, entryFor, ends, List.getLast?_concat, List.dropLast_concat, find?_snoc]
  simp only [ExceptT.run_bind, StateT.run_bind, read]
  change StateT.run (ExceptT.run _) _ = _
  cases (root.findScope? groups).bind (Table.get? ·.entries name) with
  | none =>
    cases coerceFor assignment with
    | error failure => rfl
    | ok value => exact Prod.ext rfl (put_openScopes root name _ groups)
  | some current =>
    obtain ⟨old, _, _, mutable, temp⟩ := current
    cases mutable with
    | false => rfl
    | true => cases coerceFor assignment <;> rfl

/-- An assignment that fails leaves the tree as it was. -/
theorem carryOut_cases (root : Scope) (assignment : Assignment) :
    (∃ failure, root.carryOut assignment = (.error failure, root)) ∨
      ∃ entry changed, root.carryOut assignment = (.ok entry, changed) := by
  rcases List.eq_nil_or_concat' assignment.path with empty | ⟨groups, name, ends⟩
  · exact .inl ⟨_, carryOut_nil empty root⟩
  · rw [carryOut_snoc ends]
    cases entryFor (root.find? assignment.path) name assignment with
    | error failure => exact .inl ⟨failure, rfl⟩
    | ok entry => exact .inr ⟨entry, _, rfl⟩

theorem assign_of_carryOut {root changed : Scope} {entry : Variable}
    (carried : root.carryOut assignment = (.ok entry, changed)) :
    root.assign assignment = .ok (entry, changed) := by
  rw [assign, carried]

theorem assign_nil (empty : assignment.path = []) (root : Scope) :
    root.assign assignment = fail .noTarget assignment.line assignment.token := by
  rw [assign, carryOut_nil empty]
  rfl

/-- Of the tree an assignment only reads the variable at its path. -/
theorem assign_eq (ends : assignment.path = groups ++ [name]) (root : Scope) :
    root.assign assignment = do
      let entry ← entryFor (root.find? assignment.path) name assignment
      return (entry, root.put name entry groups) := by
  rw [assign, carryOut_snoc ends]
  cases entryFor (root.find? assignment.path) name assignment <;> rfl

end CarryingOut

/-- What an assignment to a name writes: the converted value with the type that goes with it,
and the flags and the name of the variable that is there, if there is one. -/
structure Writes (root : Scope) (assignment : Assignment) (name : String) (entry : Variable) :
    Prop where
  value : coerceFor assignment = .ok entry.value
  type : entry.type = .string (assignedType assignment.type entry.value)
  known : ∀ current, root.find? assignment.path = some current →
    current.mutable = true ∧ entry.name = current.name ∧ entry.mutable = current.mutable ∧
      entry.temp = current.temp
  fresh : root.find? assignment.path = none →
    entry.name = name ∧ entry.mutable = assignment.mutable ∧ entry.temp = assignment.temp

variable {root changed : Scope} {assignment : Assignment} {entry : Variable}

theorem writes_of_entryFor {name : String}
    (given : entryFor (root.find? assignment.path) name assignment = .ok entry) :
    Writes root assignment name entry := by
  unfold entryFor at given
  split at given
  · cases given
  · next allowed =>
    obtain ⟨value, coerced, written⟩ := Result.bind_eq_ok_iff.mp given
    obtain rfl := Except.ok.inj written
    cases current : root.find? assignment.path with
    | none => exact ⟨coerced, rfl, by simp [current], fun _ => ⟨rfl, rfl, rfl⟩⟩
    | some found =>
      refine ⟨coerced, rfl, fun other isFound => ?_, by simp [current]⟩
      obtain rfl : found = other := Option.some.inj (current.symm.trans isFound)
      exact ⟨by simpa [current] using allowed, rfl, rfl, rfl⟩

theorem assign_ok (assigned : root.assign assignment = .ok (entry, changed)) :
    ∃ groups name, assignment.path = groups ++ [name] ∧ Writes root assignment name entry ∧
      changed = root.put name entry groups := by
  rcases List.eq_nil_or_concat' assignment.path with empty | ⟨groups, name, ends⟩
  · rw [assign_nil empty] at assigned
    cases assigned
  · rw [assign_eq ends] at assigned
    obtain ⟨written, given, same⟩ := Result.bind_eq_ok_iff.mp assigned
    cases same
    exact ⟨groups, name, ends, writes_of_entryFor given, rfl⟩

/-- Nothing is assigned to a variable that is not mutable, whatever the assignment brings. -/
theorem assign_immutable {current : Variable} (found : root.find? assignment.path = some current)
    (immutable : current.mutable = false) :
    root.assign assignment =
      fail .immutableVariable assignment.line assignment.token assignment.path := by
  obtain ⟨groups, name, ends⟩ := exists_snoc_of_find? found
  rw [assign_eq ends, entryFor, if_pos (by simp [found, immutable])]
  rfl

end ParaLang.Scope
