import ParaLang.Proofs.Scope.Likeness

/-! # Trees with changed variables

A change of the variables of a tree, one by one, leaves its scopes and its order as they are.  So
whatever is looked up in the changed tree is the change of what is found in the tree, and what is
written to it is the change of what is written to the tree. -/

namespace ParaLang

namespace Table

variable {α β : Type} (change : α → β) (table : Table α) (name : String)

/-- A table with each entry changed in its place. -/
def mapEntries (table : Table α) : Table β :=
  table.map fun (name, entry) => (name, change entry)

theorem get?_mapEntries :
    get? (mapEntries change table) name = (get? table name).map change := by
  induction table with
  | nil => rfl
  | cons head rest inductionHypothesis =>
    by_cases same : head.1 = name
    · simp [mapEntries, get?, same]
    · simpa [mapEntries, get?, same] using inductionHypothesis

theorem insert_mapEntries (entry : α) :
    insert (mapEntries change table) name (change entry) =
      mapEntries change (insert table name entry) := by
  induction table with
  | nil => rfl
  | cons head rest inductionHypothesis =>
    by_cases same : head.1 = name
    · simp [mapEntries, insert, same]
    · simpa [mapEntries, insert, same] using inductionHypothesis

end Table

namespace Scope

mutual

/-- The tree with each of its variables changed. -/
def mapVariables (change : Variable → Variable) : Scope → Scope
  | ⟨entries, scopes⟩ => ⟨Table.mapEntries change entries, mapInside change scopes⟩

def mapInside (change : Variable → Variable) : List (String × Scope) → List (String × Scope)
  | [] => []
  | (name, child) :: rest => (name, child.mapVariables change) :: mapInside change rest

end

variable (change : Variable → Variable) (root : Scope)

theorem mapInside_eq (scopes : List (String × Scope)) :
    mapInside change scopes = Table.mapEntries (mapVariables change) scopes := by
  induction scopes with
  | nil => rfl
  | cons head rest inductionHypothesis =>
    rw [mapInside, inductionHypothesis]
    rfl

@[simp] theorem entries_mapVariables :
    (root.mapVariables change).entries = Table.mapEntries change root.entries := by
  cases root
  rfl

@[simp] theorem scopes_mapVariables :
    (root.mapVariables change).scopes = Table.mapEntries (mapVariables change) root.scopes := by
  cases root
  rw [mapVariables, mapInside_eq]

/-! ## Looking up -/

theorem findScope?_mapVariables (groups : List String) :
    (root.mapVariables change).findScope? groups =
      (root.findScope? groups).map (mapVariables change) := by
  induction groups generalizing root with
  | nil => rfl
  | cons group groups inductionHypothesis =>
    rw [findScope?, findScope?, scopes_mapVariables, Table.get?_mapEntries]
    cases Table.get? root.scopes group with
    | none => rfl
    | some child => exact inductionHypothesis child

theorem find?_mapVariables (path : List String) :
    (root.mapVariables change).find? path = (root.find? path).map change := by
  rcases List.eq_nil_or_concat' path with rfl | ⟨groups, name, rfl⟩
  · rfl
  · rw [find?_snoc, find?_snoc, findScope?_mapVariables]
    cases root.findScope? groups with
    | none => rfl
    | some scope =>
      show Table.get? (scope.mapVariables change).entries name = _
      rw [entries_mapVariables, Table.get?_mapEntries]
      rfl

theorem resolve_mapVariables (path : List String) (line token : Option Int) :
    (root.mapVariables change).resolve path line token =
      change <$> root.resolve path line token := by
  have scopes (groups : List String) :
      ((root.mapVariables change).findScope? groups).isSome = (root.findScope? groups).isSome := by
    rw [findScope?_mapVariables, Option.isSome_map]
  rw [resolve_eq, resolve_eq, missingScope?_eq scopes, find?_mapVariables]
  cases path.getLast? with
  | none => rfl
  | some name =>
    cases root.missingScope? path.dropLast with
    | some group => rfl
    | none => cases root.find? path <;> rfl

/-! ## Writing -/

theorem put_mapVariables (name : String) (entry : Variable) (groups : List String) :
    (root.mapVariables change).put name (change entry) groups =
      (root.put name entry groups).mapVariables change := by
  induction groups generalizing root with
  | nil =>
    cases root
    simp [put, mapVariables, Table.insert_mapEntries]
  | cons group groups inductionHypothesis =>
    have child : ((Table.get? root.scopes group).map (mapVariables change)).getD {} =
        ((Table.get? root.scopes group).getD {}).mapVariables change := by
      cases Table.get? root.scopes group <;> rfl
    cases root
    simp only [put, Table.get?_mapEntries, child, inductionHypothesis, Table.insert_mapEntries,
      mapVariables, mapInside_eq]

end Scope

end ParaLang
