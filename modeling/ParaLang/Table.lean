/-! # Tables in insertion order

A table maps names to entries and remembers the order in which the names were first inserted:
replacing an entry keeps its place.  Variables and scopes are listed in this order wherever they
are printed. -/

namespace ParaLang

universe u

abbrev Table (α : Type u) := List (String × α)

namespace Table

variable {α : Type u}

def get? : Table α → String → Option α
  | [], _ => none
  | (key, entry) :: rest, name => if key = name then some entry else get? rest name

/-- Replaces the entry in its place, or adds a new one at the end. -/
def insert : Table α → String → α → Table α
  | [], name, entry => [(name, entry)]
  | (key, old) :: rest, name, entry =>
    if key = name then (key, entry) :: rest else (key, old) :: insert rest name entry

def names (table : Table α) : List String :=
  table.map Prod.fst

/-- The table of a list of pairs in which a later pair replaces an earlier one of its name. -/
def ofPairs (pairs : List (String × α)) : Table α :=
  pairs.foldl (fun table (name, entry) => insert table name entry) []

@[simp] theorem get?_nil (name : String) : get? ([] : Table α) name = none := rfl

@[simp] theorem get?_insert_self (table : Table α) (name : String) (entry : α) :
    get? (insert table name entry) name = some entry := by
  induction table with
  | nil => simp [insert, get?]
  | cons head rest inductionHypothesis =>
    by_cases same : head.1 = name <;> simp [insert, get?, same, inductionHypothesis]

theorem get?_insert_of_ne (table : Table α) {name other : String} (entry : α)
    (distinct : other ≠ name) : get? (insert table name entry) other = get? table other := by
  induction table with
  | nil => simp [insert, get?, distinct.symm]
  | cons head rest inductionHypothesis =>
    by_cases same : head.1 = name
    · subst same
      simp [insert, get?, distinct.symm]
    · simp only [insert, same, if_false, get?, inductionHypothesis]

theorem insert_insert (table : Table α) (name : String) (old entry : α) :
    insert (insert table name old) name entry = insert table name entry := by
  induction table with
  | nil => simp [insert]
  | cons head rest inductionHypothesis =>
    by_cases same : head.1 = name <;> simp [insert, same, inductionHypothesis]

/-- Inserting adds the name at the end unless it is there already. -/
theorem names_insert (table : Table α) (name : String) (entry : α) :
    names (insert table name entry) =
      if name ∈ names table then names table else names table ++ [name] := by
  induction table with
  | nil => simp [insert, names]
  | cons head rest inductionHypothesis =>
    simp only [names] at inductionHypothesis
    by_cases same : head.1 = name
    · simp [insert, names, same]
    · have different : name ≠ head.1 := fun equal => same equal.symm
      by_cases present : name ∈ List.map Prod.fst rest <;>
        simp_all [insert, names]

end Table

end ParaLang
