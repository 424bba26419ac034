import ParaLang.Proofs.Scope.Store
import ParaLang.Scope.Walk

/-! # What holds of every variable

A property of the variables of a tree, at any depth, is kept by a write if it holds of what is
written. -/

namespace ParaLang

namespace Table

variable {α : Type} {table : Table α} {name : String} {entry : α}

theorem mem_of_get? (found : get? table name = some entry) : (name, entry) ∈ table := by
  induction table with
  | nil => cases found
  | cons head rest inductionHypothesis =>
    obtain ⟨key, old⟩ := head
    by_cases same : key = name
    · rw [get?, if_pos same] at found
      cases found
      exact same ▸ List.mem_cons_self
    · rw [get?, if_neg same] at found
      exact List.mem_cons_of_mem _ (inductionHypothesis found)

/-- A table holds after an insertion what it held before, and what is inserted. -/
theorem mem_insert {pair : String × α} (member : pair ∈ insert table name entry) :
    pair ∈ table ∨ pair = (name, entry) := by
  induction table with
  | nil => exact .inr (List.mem_singleton.mp member)
  | cons head rest inductionHypothesis =>
    obtain ⟨key, old⟩ := head
    by_cases same : key = name
    · rw [insert, if_pos same, same] at member
      rcases List.mem_cons.mp member with rfl | member
      · exact .inr rfl
      · exact .inl (List.mem_cons_of_mem _ member)
    · rw [insert, if_neg same] at member
      rcases List.mem_cons.mp member with rfl | member
      · exact .inl List.mem_cons_self
      · exact (inductionHypothesis member).imp_left (List.mem_cons_of_mem _)

end Table

namespace Scope

variable {property : String → Variable → Prop}

mutual

/-- Every variable of a scope and of the scopes inside it has a property. -/
def Holds (property : String → Variable → Prop) : Scope → Prop
  | ⟨entries, scopes⟩ =>
    (∀ pair ∈ entries, property pair.1 pair.2) ∧ HoldsInside property scopes

def HoldsInside (property : String → Variable → Prop) : List (String × Scope) → Prop
  | [] => True
  | (_, child) :: rest => child.Holds property ∧ HoldsInside property rest

end

theorem holds_iff {scope : Scope} : scope.Holds property ↔
    (∀ pair ∈ scope.entries, property pair.1 pair.2) ∧ HoldsInside property scope.scopes := by
  cases scope
  rw [Holds]

theorem holdsInside_iff {scopes : List (String × Scope)} :
    HoldsInside property scopes ↔ ∀ pair ∈ scopes, pair.2.Holds property := by
  induction scopes with
  | nil => simp [HoldsInside]
  | cons head rest inductionHypothesis => simp [HoldsInside, inductionHypothesis]

theorem holds_empty : ({} : Scope).Holds property :=
  holds_iff.mpr ⟨by simp, holdsInside_iff.mpr (by simp)⟩

/-! ## Looking up -/

theorem holds_findScope? {root scope : Scope} {groups : List String} (holds : root.Holds property)
    (found : root.findScope? groups = some scope) : scope.Holds property := by
  induction groups generalizing root with
  | nil => exact Option.some.inj found ▸ holds
  | cons group groups inductionHypothesis =>
    obtain ⟨child, isChild, later⟩ := Option.bind_eq_some_iff.mp found
    exact inductionHypothesis
      (holdsInside_iff.mp (holds_iff.mp holds).2 _ (Table.mem_of_get? isChild)) later

theorem holds_get? {scope : Scope} {name : String} {entry : Variable}
    (holds : scope.Holds property) (found : Table.get? scope.entries name = some entry) :
    property name entry :=
  (holds_iff.mp holds).1 _ (Table.mem_of_get? found)

theorem holds_find? {root : Scope} {path : List String} {entry : Variable}
    (holds : root.Holds property) (found : root.find? path = some entry) :
    ∃ groups name, path = groups ++ [name] ∧ property name entry := by
  obtain ⟨groups, name, rfl⟩ := exists_snoc_of_find? found
  rw [find?_snoc] at found
  obtain ⟨scope, isScope, isEntry⟩ := Option.bind_eq_some_iff.mp found
  exact ⟨groups, name, rfl, holds_get? (holds_findScope? holds isScope) isEntry⟩

/-! ## Writing -/

theorem holds_put {root : Scope} {name : String} {entry : Variable} (groups : List String)
    (holds : root.Holds property) (written : property name entry) :
    (root.put name entry groups).Holds property := by
  induction groups generalizing root with
  | nil =>
    refine holds_iff.mpr ⟨fun pair member => ?_, (holds_iff.mp holds).2⟩
    rcases Table.mem_insert member with before | rfl
    · exact (holds_iff.mp holds).1 pair before
    · exact written
  | cons group groups inductionHypothesis =>
    have child : ((Table.get? root.scopes group).getD {}).Holds property := by
      cases found : Table.get? root.scopes group with
      | none => exact holds_empty
      | some child =>
        exact holdsInside_iff.mp (holds_iff.mp holds).2 _ (Table.mem_of_get? found)
    refine holds_iff.mpr ⟨(holds_iff.mp holds).1, holdsInside_iff.mpr fun pair member => ?_⟩
    rcases Table.mem_insert member with before | rfl
    · exact holdsInside_iff.mp (holds_iff.mp holds).2 pair before
    · exact inductionHypothesis child

/-! ## Walking -/

mutual

theorem holds_of_mem_walk {scope : Scope} (holds : scope.Holds property) (heading : List String) :
    ∀ part ∈ scope.walk heading, part.2.Holds property := by
  obtain ⟨entries, scopes⟩ := scope
  rw [walk]
  exact holds_of_mem_walkAll (holds_iff.mp holds).2 heading

theorem holds_of_mem_walkAll {scopes : List (String × Scope)}
    (holds : HoldsInside property scopes) (heading : List String) :
    ∀ part ∈ walkAll heading scopes, part.2.Holds property := by
  match scopes, holds with
  | [], _ => simp [walkAll]
  | (name, child) :: rest, holds =>
    rw [HoldsInside] at holds
    intro part member
    rw [walkAll, List.mem_cons, List.mem_append] at member
    rcases member with rfl | inChild | later
    · exact holds.1
    · exact holds_of_mem_walk holds.1 _ part inChild
    · exact holds_of_mem_walkAll holds.2 heading part later

end

/-- The variables of the root and of every nested scope have the property. -/
theorem holds_of_mem_sections {root : Scope} (holds : root.Holds property) :
    ∀ part ∈ root.sections, ∀ pair ∈ part.2.entries, property pair.1 pair.2 := by
  intro part member
  rcases List.mem_cons.mp member with rfl | member
  · exact (holds_iff.mp holds).1
  · exact (holds_iff.mp (holds_of_mem_walk holds [] part member)).1

end Scope

end ParaLang
