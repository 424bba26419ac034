import ParaLang.Proofs.Scope.Walking

/-! # What a dump lists

A dump has a section for the root and one for each scope that a walk comes to.  A section lists the
variables that are found directly below the path of its scope, each of them once and under the path
at which it is found. -/

namespace ParaLang

/-- The line of the variable at a path. -/
def Variable.listing (path : List String) (entry : Variable) : String :=
  formatPath path ++ " : " ++ entry.type.text ++ " = " ++ entry.value.display ++
    (if entry.mutable then " [muta]" else "") ++ (if entry.temp then " [temp]" else "")

namespace Scope

/-! ## Lines -/

/-- The lines in front of the variables of a scope. -/
def title (groups : List String) : List String :=
  if groups.isEmpty then ["// Root scope variables"]
  else ["", "// " ++ heading groups ++ "scope variables"]

/-- The variables directly in a scope, each with its path. -/
def located (groups : List String) (scope : Scope) : List (List String × Variable) :=
  scope.entries.map fun pair => (groups ++ [pair.1], pair.2)

/-- The lines of variables with their paths. -/
def listings (found : List (List String × Variable)) : List String :=
  found.map fun (path, entry) => entry.listing path

/-- The variables of a tree, section by section. -/
def allLocated (root : Scope) : List (List String × Variable) :=
  root.sections.flatMap fun part => located part.1 part.2

theorem formatPath_snoc (groups : List String) (name : String) :
    formatPath (groups ++ [name]) = heading groups ++ name := by
  cases groups with
  | nil => simp [formatPath, heading]
  | cons group groups =>
    rw [formatPath, String.intercalate_append_of_ne_nil (by simp) (by simp)]
    simp [formatPath, heading]

theorem line_heading (groups : List String) (entry : Variable) :
    entry.line (heading groups) = entry.listing (groups ++ [entry.name]) := by
  rw [Variable.line, Variable.listing, formatPath_snoc]

/-- A section is its title and the lines of its variables. -/
theorem sectionLines_eq (includeTemp : Bool) (groups : List String) {scope : Scope}
    (named : ∀ pair ∈ scope.entries, pair.2.name = pair.1) :
    sectionLines includeTemp groups scope =
      title groups ++ listings ((located groups scope).filter fun (_, entry) =>
        includeTemp || !entry.temp) := by
  rw [sectionLines, title, visible, listings, located, List.filter_map, List.filter_map,
    List.map_map, List.map_map]
  congr 1
  refine List.map_congr_left fun pair member => ?_
  have isNamed := named pair (List.mem_of_mem_filter member)
  simp only [Function.comp_apply, line_heading, isNamed]

/-! ## Variables -/

section Variables

variable {root : Scope} (distinct : root.Distinct)
include distinct

/-- A section has the variables that are found directly below its path. -/
theorem mem_located_iff {groups : List String} {scope : Scope}
    (isScope : root.findScope? groups = some scope) {path : List String} {entry : Variable} :
    (path, entry) ∈ located groups scope ↔
      path.dropLast = groups ∧ root.find? path = some entry := by
  have names := (distinct_iff.mp (distinct_findScope? distinct isScope)).1
  rw [located, List.mem_map]
  constructor
  · rintro ⟨⟨name, found⟩, member, same⟩
    cases same
    rw [find?_snoc, isScope]
    exact ⟨List.dropLast_concat, Table.get?_of_mem names member⟩
  · rintro ⟨rfl, isFound⟩
    obtain ⟨groups, name, rfl⟩ := exists_snoc_of_find? isFound
    rw [List.dropLast_concat] at isScope ⊢
    rw [find?_snoc, isScope] at isFound
    exact ⟨(name, entry), Table.mem_of_get? isFound, rfl⟩

/-- A dump has a section for each path that leads to a scope. -/
theorem mem_sections_iff {groups : List String} {scope : Scope} :
    (groups, scope) ∈ root.sections ↔ root.findScope? groups = some scope := by
  rw [sections, List.mem_cons, mem_walk_iff distinct]
  constructor
  · rintro (here | ⟨-, isScope⟩)
    · cases here
      rfl
    · exact isScope
  · intro isScope
    by_cases empty : groups = []
    · subst empty
      cases isScope
      exact .inl rfl
    · exact .inr ⟨empty, isScope⟩

theorem mem_allLocated_iff {path : List String} {entry : Variable} :
    (path, entry) ∈ root.allLocated ↔ root.find? path = some entry := by
  rw [allLocated, List.mem_flatMap]
  constructor
  · rintro ⟨⟨groups, scope⟩, member, inSection⟩
    exact ((mem_located_iff distinct ((mem_sections_iff distinct).mp member)).mp inSection).2
  · intro isFound
    obtain ⟨groups, name, rfl⟩ := exists_snoc_of_find? isFound
    have inScope := isFound
    rw [find?_snoc, Option.bind_eq_some_iff] at inScope
    obtain ⟨scope, isScope, -⟩ := inScope
    exact ⟨(groups, scope), (mem_sections_iff distinct).mpr isScope,
      (mem_located_iff distinct isScope).mpr ⟨List.dropLast_concat, isFound⟩⟩

theorem nodup_allLocated : (root.allLocated.map Prod.fst).Nodup := by
  rw [allLocated, List.Nodup, List.pairwise_map, List.pairwise_flatMap]
  constructor
  · intro part member
    have isScope := (mem_sections_iff distinct).mp member
    have names := (distinct_iff.mp (distinct_findScope? distinct isScope)).1
    rw [Table.names, List.Nodup, List.pairwise_map] at names
    rw [located, List.pairwise_map]
    exact names.imp fun apart same => apart (by simpa using same)
  · have apart : root.sections.Pairwise fun part other => part.1 ≠ other.1 := by
      rw [sections, List.pairwise_cons]
      refine ⟨fun part member same => ?_, List.pairwise_map.mp (nodup_walk distinct)⟩
      exact ((mem_walk_iff distinct).mp member).1 same.symm
    refine apart.imp fun differ pair inPart otherPair inOther same => ?_
    obtain ⟨entry, -, rfl⟩ := List.mem_map.mp inPart
    obtain ⟨otherEntry, -, rfl⟩ := List.mem_map.mp inOther
    exact differ (List.append_inj_left' same rfl)

end Variables

/-! ## The kept variables -/

section Kept

variable (kept : Variable → Bool)

theorem scopes_keep (root : Scope) :
    (root.keep kept).scopes = root.scopes.map fun pair => (pair.1, pair.2.keep kept) := by
  have inside (scopes : List (String × Scope)) :
      keepInside kept scopes = scopes.map fun pair => (pair.1, pair.2.keep kept) := by
    induction scopes with
    | nil => rfl
    | cons head rest inductionHypothesis => rw [keepInside, inductionHypothesis, List.map_cons]
  obtain ⟨entries, scopes⟩ := root
  rw [keep, inside]

theorem walk_keep (root : Scope) :
    (root.keep kept).walk [] = (root.walk []).map fun part => (part.1, part.2.keep kept) := by
  induction root using inside_induction with
  | step root inside =>
    rw [walk_eq_flatMap, walk_eq_flatMap, scopes_keep, List.flatMap_map, List.map_flatMap]
    refine List.flatMap_congr fun pair member => ?_
    simp [branch_eq, inside pair member, under, Function.comp_def]

/-- Leaving variables out leaves the sections as they are but for these. -/
theorem sections_keep (root : Scope) :
    (root.keep kept).sections = root.sections.map fun part => (part.1, part.2.keep kept) := by
  rw [sections, sections, walk_keep, List.map_cons]

end Kept

/-- Leaving the temporary variables out of a dump is like leaving them out of the tree. -/
theorem dump_keep (root : Scope) :
    dump true (root.keep fun entry => !entry.temp) = dump false root := by
  rw [dump, dump, sections_keep, List.flatMap_map]
  congr 1
  refine List.flatMap_congr fun (groups, scope) _ => ?_
  obtain ⟨entries, scopes⟩ := scope
  show sectionLines true groups (keep _ ⟨entries, scopes⟩) = sectionLines false groups _
  simp [sectionLines, visible, keep, List.filter_map, Function.comp_def]

/-! ## Dumps -/

/-- What a walk over a tree comes to, and in which order. -/
structure WalksInOrder (root : Scope) : Prop where
  reaches : ∀ groups scope, (groups, scope) ∈ root.walk [] ↔
    groups ≠ [] ∧ root.findScope? groups = some scope
  once : ((root.walk []).map Prod.fst).Nodup
  inOrder : (root.walk []).Pairwise fun part other => root.Precedes part.1 other.1

/-- What a dump of a tree lists, and where: a section has its title, followed by the lines of the
variables that are found directly below its path. -/
structure ListsWhatIsFound (root : Scope) : Prop where
  found : ∀ path entry, (path, entry) ∈ root.allLocated ↔ root.find? path = some entry
  once : (root.allLocated.map Prod.fst).Nodup
  inSection : ∀ groups scope, (groups, scope) ∈ root.sections → ∀ path entry,
    (path, entry) ∈ located groups scope ↔ path.dropLast = groups ∧ root.find? path = some entry
  all : dump true root = Text.unlines (root.sections.flatMap fun (groups, scope) =>
    title groups ++ listings (located groups scope))
  lasting : dump false root = Text.unlines (root.sections.flatMap fun (groups, scope) =>
    title groups ++ listings ((located groups scope).filter fun (_, entry) => !entry.temp))

theorem Distinct.walksInOrder {root : Scope} (distinct : root.Distinct) : root.WalksInOrder where
  reaches _ _ := mem_walk_iff distinct
  once := nodup_walk distinct
  inOrder := pairwise_precedes distinct

theorem Restorable.listsWhatIsFound {root : Scope} (restorable : root.Restorable) :
    root.ListsWhatIsFound := by
  have distinct := restorable.distinct
  have dumped (includeTemp : Bool) :
      dump includeTemp root = Text.unlines (root.sections.flatMap fun (groups, scope) =>
        title groups ++ listings ((located groups scope).filter fun (_, entry) =>
          includeTemp || !entry.temp)) := by
    rw [dump]
    congr 1
    refine List.flatMap_congr fun (groups, scope) member => ?_
    exact sectionLines_eq includeTemp groups fun pair inside =>
      (holds_of_mem_sections restorable.rereads _ member pair inside).named
  exact {
    found := fun _ _ => mem_allLocated_iff distinct
    once := nodup_allLocated distinct
    inSection := fun _ _ member _ _ =>
      mem_located_iff distinct ((mem_sections_iff distinct).mp member)
    all := by simpa using dumped true
    lasting := by simpa using dumped false }

/-- A tree that assignments have built: a walk comes to each nested scope once, parents first and
in insertion order, that is in the order in which the assignments have created them.  The full dump
lists exactly the variables that are found, each of them once and in the section of its scope.  The
usual dump is the same without the temporary variables, and is the full dump of the tree that is
read back from its plain form. -/
theorem dump_of_assignments (earlier later : List Assignment) :
    let root := ({} : Scope).assignAll (earlier ++ later)
    root.WalksInOrder ∧ (({} : Scope).assignAll earlier).GrowsTo root ∧ root.ListsWhatIsFound ∧
      root.sections = ([], root) :: root.walk [] ∧
      ∃ again, decode (root.encode false) = .ok again ∧ dump true again = dump false root := by
  intro root
  have restorable : root.Restorable := restorable_assignAll (earlier ++ later) restorable_empty
  have grows : (({} : Scope).assignAll earlier).GrowsTo root := by
    show GrowsTo _ (assignAll _ (earlier ++ later))
    rw [assignAll_append]
    exact growsTo_assignAll _ later
  have decoded : decode (root.encode false) = .ok (root.keep fun entry => !entry.temp) := by
    simpa using decode_encode false restorable
  exact ⟨restorable.distinct.walksInOrder, grows, restorable.listsWhatIsFound, rfl, _, decoded,
    dump_keep root⟩

/-- A variable and a group of one name, and a group that holds nothing but a temporary variable. -/
example :
    dump false (({} : Scope).assignAll [{ path := ["g"], value := some (.bool true) },
      { path := ["g", "h", "x"], value := some .null, temp := true },
      { path := ["g", "y"], value := some (.bool false), mutable := true }]) =
      "// Root scope variables\ng : bool = TRUE\n\n// g-> scope variables\n" ++
        "g-> y : bool = FALSE [muta]\n\n// g-> h-> scope variables\n" := by
  decide

end Scope

end ParaLang
