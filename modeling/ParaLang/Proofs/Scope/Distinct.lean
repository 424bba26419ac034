import ParaLang.Proofs.Scope.Contents

/-! # Names that stand once

A table is searched by name, so what it holds under a name a second time is never found.  A write
never adds such an entry, and neither does a table made of pairs. -/

namespace ParaLang

namespace Table

variable {α : Type} {table : Table α}

theorem nodup_insert (name : String) (entry : α) (distinct : (names table).Nodup) :
    (names (insert table name entry)).Nodup := by
  rw [names_insert]
  by_cases present : name ∈ names table
  · rwa [if_pos present]
  · rw [if_neg present, List.nodup_append]
    refine ⟨distinct, by simp, fun old before new added same => ?_⟩
    rw [List.mem_singleton.mp added] at same
    exact present (same ▸ before)

theorem nodup_ofPairs (pairs : List (String × α)) : (names (ofPairs pairs)).Nodup :=
  List.foldlRecOn (motive := fun table => (names table).Nodup) pairs _ List.nodup_nil
    fun _ distinct _ _ => nodup_insert _ _ distinct

theorem mem_of_mem_ofPairs {pairs : List (String × α)} :
    ∀ pair ∈ ofPairs pairs, pair ∈ pairs := by
  refine List.foldlRecOn (motive := fun table => ∀ pair ∈ table, pair ∈ pairs) pairs _
    (fun _ member => nomatch member) fun table before added isAdded pair inside => ?_
  rcases mem_insert inside with inside | rfl
  · exact before pair inside
  · exact isAdded

theorem insert_of_notMem {name : String} (entry : α) (absent : name ∉ names table) :
    insert table name entry = table ++ [(name, entry)] := by
  induction table with
  | nil => rfl
  | cons head rest inductionHypothesis =>
    simp only [names, List.map_cons, List.mem_cons, not_or] at absent
    have different : head.1 ≠ name := fun same => absent.1 same.symm
    simp only [insert, if_neg different, inductionHypothesis absent.2, List.cons_append]

/-- Pairs with distinct names already are the table that is made of them. -/
theorem ofPairs_of_nodup {pairs : List (String × α)} (distinct : (names pairs).Nodup) :
    ofPairs pairs = pairs := by
  have grows : ∀ (rest taken : List (String × α)), (names (taken ++ rest)).Nodup →
      rest.foldl (fun table pair => insert table pair.1 pair.2) taken = taken ++ rest := by
    intro rest
    induction rest with
    | nil => simp
    | cons head rest inductionHypothesis =>
      intro taken distinct
      have absent : head.1 ∉ names taken := by
        simp only [names, List.map_append, List.map_cons, List.nodup_append] at distinct ⊢
        exact fun inside => distinct.2.2 _ inside _ List.mem_cons_self rfl
      rw [List.foldl_cons, insert_of_notMem _ absent, inductionHypothesis]
      · simp
      · simpa using distinct
  exact grows pairs [] distinct

end Table

namespace Scope

mutual

/-- No scope, at any depth, holds two variables or two scopes of one name. -/
def Distinct : Scope → Prop
  | ⟨entries, scopes⟩ =>
    (Table.names entries).Nodup ∧ (Table.names scopes).Nodup ∧ DistinctInside scopes

def DistinctInside : List (String × Scope) → Prop
  | [] => True
  | (_, child) :: rest => child.Distinct ∧ DistinctInside rest

end

theorem distinct_iff {scope : Scope} : scope.Distinct ↔
    (Table.names scope.entries).Nodup ∧ (Table.names scope.scopes).Nodup ∧
      DistinctInside scope.scopes := by
  cases scope
  rw [Distinct]

theorem distinctInside_iff {scopes : List (String × Scope)} :
    DistinctInside scopes ↔ ∀ pair ∈ scopes, pair.2.Distinct := by
  induction scopes with
  | nil => simp [DistinctInside]
  | cons head rest inductionHypothesis => simp [DistinctInside, inductionHypothesis]

theorem distinct_empty : ({} : Scope).Distinct :=
  distinct_iff.mpr ⟨List.nodup_nil, List.nodup_nil, trivial⟩

theorem distinct_findScope? {root scope : Scope} {groups : List String} (distinct : root.Distinct)
    (found : root.findScope? groups = some scope) : scope.Distinct := by
  induction groups generalizing root with
  | nil => exact Option.some.inj found ▸ distinct
  | cons group groups inductionHypothesis =>
    obtain ⟨child, isChild, later⟩ := Option.bind_eq_some_iff.mp found
    exact inductionHypothesis
      (distinctInside_iff.mp (distinct_iff.mp distinct).2.2 _ (Table.mem_of_get? isChild)) later

theorem distinct_put {root : Scope} (name : String) (entry : Variable) (groups : List String)
    (distinct : root.Distinct) : (root.put name entry groups).Distinct := by
  induction groups generalizing root with
  | nil =>
    obtain ⟨entries, scopes, inside⟩ := distinct_iff.mp distinct
    exact distinct_iff.mpr ⟨Table.nodup_insert name entry entries, scopes, inside⟩
  | cons group groups inductionHypothesis =>
    obtain ⟨entries, scopes, inside⟩ := distinct_iff.mp distinct
    have child : ((Table.get? root.scopes group).getD {}).Distinct := by
      cases found : Table.get? root.scopes group with
      | none => exact distinct_empty
      | some child => exact distinctInside_iff.mp inside _ (Table.mem_of_get? found)
    refine distinct_iff.mpr ⟨entries, Table.nodup_insert group _ scopes,
      distinctInside_iff.mpr fun pair member => ?_⟩
    rcases Table.mem_insert member with before | rfl
    · exact distinctInside_iff.mp inside pair before
    · exact inductionHypothesis child

end Scope

end ParaLang
