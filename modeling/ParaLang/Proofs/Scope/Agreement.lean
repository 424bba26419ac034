import ParaLang.Proofs.Scope.Distinct
import ParaLang.Proofs.Scope.Likeness

/-! # Agreement of trees with the same contents

Trees in which no name stands twice agree if they have the same contents, in whatever order these
were written.  Only an undefined number does not agree even with itself. -/

namespace ParaLang

namespace Table

variable {α β : Type} {table : Table α} {other : Table β}

theorem get?_of_mem (distinct : (names table).Nodup) {name : String} {entry : α}
    (member : (name, entry) ∈ table) : get? table name = some entry := by
  induction table with
  | nil => cases member
  | cons head rest inductionHypothesis =>
    obtain ⟨absent, distinct⟩ := List.nodup_cons.mp distinct
    rcases List.mem_cons.mp member with rfl | inRest
    · simp [get?]
    · have different : head.1 ≠ name := by
        rintro rfl
        exact absent (List.mem_map.mpr ⟨_, inRest, rfl⟩)
      rw [get?, if_neg different]
      exact inductionHypothesis distinct inRest

theorem isSome_get? {name : String} : (get? table name).isSome = true ↔ name ∈ names table := by
  induction table with
  | nil => simp [names]
  | cons head rest inductionHypothesis =>
    by_cases same : head.1 = name
    · simp [get?, names, same]
    · have different : ¬ name = head.1 := fun equal => same equal.symm
      simpa [get?, names, same, different] using inductionHypothesis

/-- Tables with the same names are of the same length. -/
theorem length_eq_of_get? (distinct : (names table).Nodup) (otherDistinct : (names other).Nodup)
    (same : ∀ name, (get? table name).isSome = (get? other name).isSome) :
    table.length = other.length := by
  have members (name : String) : name ∈ names table ↔ name ∈ names other := by
    rw [← isSome_get?, ← isSome_get?, same]
  have permutes := (List.perm_ext_iff_of_nodup distinct otherDistinct).mpr members
  simpa [names] using permutes.length_eq

end Table

namespace Scope

variable {shared : List String → Bool} {root other : Scope}

/-- What is found below a scope of the root. -/
theorem find?_cons (root : Scope) (name : String) {below : List String} (nonempty : below ≠ []) :
    root.find? (name :: below) = (Table.get? root.scopes name).bind (find? · below) := by
  obtain ⟨groups, last, rfl⟩ := (List.eq_nil_or_concat' below).resolve_left nonempty
  rw [← List.cons_append, find?_snoc, findScope?]
  cases Table.get? root.scopes name with
  | none => rfl
  | some child => exact (find?_snoc child groups last).symm

/-- So are the scopes of trees with the same contents. -/
theorem SameContents.child (same : root.SameContents other) {name : String} {child : Scope}
    (found : Table.get? root.scopes name = some child) :
    ∃ otherChild, Table.get? other.scopes name = some otherChild ∧
      child.SameContents otherChild := by
  have scopes := fun below => same.sameScopes (name :: below)
  have present : (Table.get? other.scopes name).isSome = true := by
    simpa [findScope?, found] using (scopes []).symm
  obtain ⟨otherChild, otherFound⟩ := Option.isSome_iff_exists.mp present
  refine ⟨otherChild, otherFound, fun path => ?_, fun path => ?_⟩
  · by_cases empty : path = []
    · rw [empty]
      rfl
    · simpa [find?_cons _ _ empty, found, otherFound] using same.sameVariables (name :: path)
  · simpa [findScope?, found, otherFound] using scopes path

/-- Each variable found in the tree is shared or agrees with itself. -/
def AgreesWithItself (root : Scope) (shared : List String → Bool) (path : List String) : Prop :=
  ∀ below entry, root.find? below = some entry →
    shared (path ++ below) = true ∨ variablesAgree entry entry = true

theorem AgreesWithItself.child {path : List String}
    (agrees : root.AgreesWithItself shared path) {name : String} {child : Scope}
    (found : Table.get? root.scopes name = some child) :
    child.AgreesWithItself shared (path ++ [name]) := by
  intro below entry isEntry
  by_cases empty : below = []
  · rw [empty] at isEntry
    cases isEntry
  · have inRoot : root.find? (name :: below) = some entry := by
      rw [find?_cons _ _ empty, found]
      exact isEntry
    simpa using agrees (name :: below) entry inRoot

theorem allVariablesAgree_of_same {path : List String} (same : root.SameContents other)
    (distinct : root.Distinct) (otherDistinct : other.Distinct)
    (agrees : root.AgreesWithItself shared path) :
    allVariablesAgree (fun name => shared (path ++ [name])) root.entries other.entries = true := by
  have entries := (distinct_iff.mp distinct).1
  have sameEntries (name : String) :
      Table.get? root.entries name = Table.get? other.entries name := same.sameVariables [name]
  have lengths := Table.length_eq_of_get? entries (distinct_iff.mp otherDistinct).1
    fun name => congrArg Option.isSome (sameEntries name)
  rw [allVariablesAgree, Bool.and_eq_true]
  refine ⟨by simpa using lengths, List.all_eq_true.mpr fun (name, entry) member => ?_⟩
  have found : Table.get? root.entries name = some entry := Table.get?_of_mem entries member
  simpa [← sameEntries, found] using agrees [name] entry found

mutual

theorem SameContents.agreesAt {root other : Scope} (same : root.SameContents other)
    (distinct : root.Distinct) (otherDistinct : other.Distinct) (path : List String)
    (agrees : root.AgreesWithItself shared path) : root.agreesAt shared path other = true := by
  have variablesAgree := allVariablesAgree_of_same same distinct otherDistinct agrees
  have scopes := (distinct_iff.mp distinct).2
  have otherScopes := (distinct_iff.mp otherDistinct).2
  have lengths := Table.length_eq_of_get? scopes.1 otherScopes.1
    fun name => by simpa [findScope?] using same.sameScopes [name]
  match root with
  | ⟨entries, inside⟩ =>
    rw [Scope.agreesAt, variablesAgree, Bool.true_and, Bool.and_eq_true]
    refine ⟨by simpa using lengths, allScopesAgree_of_same inside other.scopes path ?_⟩
    intro pair member
    have found := Table.get?_of_mem scopes.1 member
    obtain ⟨otherChild, otherFound, sameChild⟩ := same.child found
    exact ⟨otherChild, otherFound, sameChild, distinctInside_iff.mp scopes.2 pair member,
      distinctInside_iff.mp otherScopes.2 _ (Table.mem_of_get? otherFound), agrees.child found⟩

theorem allScopesAgree_of_same (inside others : List (String × Scope)) (path : List String)
    (each : ∀ pair ∈ inside, ∃ other, Table.get? others pair.1 = some other ∧
      pair.2.SameContents other ∧ pair.2.Distinct ∧ other.Distinct ∧
      pair.2.AgreesWithItself shared (path ++ [pair.1])) :
    allScopesAgree shared path inside others = true := by
  match inside with
  | [] => rfl
  | (name, child) :: rest =>
    obtain ⟨⟨other, found, same, distinct, otherDistinct, agrees⟩, later⟩ :=
      List.forall_mem_cons.mp each
    rw [allScopesAgree, found, Bool.and_eq_true]
    exact ⟨same.agreesAt distinct otherDistinct (path ++ [name]) agrees,
      allScopesAgree_of_same rest others path later⟩

end

/-- Trees with the same contents agree, if no variable but the shared ones holds an undefined
number. -/
theorem SameContents.agrees (same : root.SameContents other) (distinct : root.Distinct)
    (otherDistinct : other.Distinct) (agrees : root.AgreesWithItself shared []) :
    root.agrees shared other = true :=
  same.agreesAt distinct otherDistinct [] agrees

end Scope

end ParaLang
