import ParaLang.Proofs.Scope.Agreement
import ParaLang.Proofs.Scope.Encoding

/-! # The order of a walk

A walk over a tree in which no name stands twice comes to each nested scope once, under the path
that leads to it.  It comes to a scope before the scopes inside it, and to two scopes inside the
same one, with all that is inside them, in the order in which these were inserted. -/

namespace ParaLang

namespace Scope

/-! ## Induction -/

mutual

/-- What holds of a scope as soon as it holds of the scopes inside it holds of every scope. -/
theorem inside_induction {motive : Scope → Prop}
    (step : ∀ scope : Scope, (∀ pair ∈ scope.scopes, motive pair.2) → motive scope)
    (root : Scope) : motive root := by
  match root with
  | ⟨entries, scopes⟩ => exact step ⟨entries, scopes⟩ (inside_induction_all step scopes)

theorem inside_induction_all {motive : Scope → Prop}
    (step : ∀ scope : Scope, (∀ pair ∈ scope.scopes, motive pair.2) → motive scope)
    (scopes : List (String × Scope)) : ∀ pair ∈ scopes, motive pair.2 := by
  match scopes with
  | [] => simp
  | (name, child) :: rest =>
    exact List.forall_mem_cons.mpr
      ⟨inside_induction step child, inside_induction_all step rest⟩

end

/-! ## The walk as a list -/

/-- A part of a walk, seen from the scope around it. -/
def under (heading : List String) (part : List String × Scope) : List String × Scope :=
  (heading ++ part.1, part.2)

/-- The part of a walk over a scope directly inside and all that is inside that one. -/
def branch (heading : List String) (pair : String × Scope) : List (List String × Scope) :=
  (heading ++ [pair.1], pair.2) :: pair.2.walk (heading ++ [pair.1])

theorem walk_eq_flatMap (root : Scope) (heading : List String) :
    root.walk heading = root.scopes.flatMap (branch heading) := by
  have all (scopes : List (String × Scope)) :
      walkAll heading scopes = scopes.flatMap (branch heading) := by
    induction scopes with
    | nil => rfl
    | cons head rest inductionHypothesis =>
      rw [walkAll, inductionHypothesis]
      rfl
  obtain ⟨entries, scopes⟩ := root
  rw [walk, all]

theorem walk_eq_under (root : Scope) (heading : List String) :
    root.walk heading = (root.walk []).map (under heading) := by
  induction root using inside_induction generalizing heading with
  | step root inside =>
    rw [walk_eq_flatMap, walk_eq_flatMap, List.map_flatMap]
    refine List.flatMap_congr fun pair member => ?_
    rw [branch, branch, inside pair member (heading ++ [pair.1]),
      inside pair member ([] ++ [pair.1])]
    simp [under, Function.comp_def]

theorem branch_eq (pair : String × Scope) :
    branch [] pair = under [pair.1] ([], pair.2) :: (pair.2.walk []).map (under [pair.1]) := by
  rw [branch, walk_eq_under]
  rfl

/-! ## What a walk comes to -/

theorem mem_walk_iff {root : Scope} (distinct : root.Distinct) {groups : List String}
    {scope : Scope} :
    (groups, scope) ∈ root.walk [] ↔ groups ≠ [] ∧ root.findScope? groups = some scope := by
  induction root using inside_induction generalizing groups with
  | step root inside =>
    obtain ⟨-, distinctScopes, distinctInside⟩ := distinct_iff.mp distinct
    rw [walk_eq_flatMap, List.mem_flatMap]
    cases groups with
    | nil => simp [branch_eq, under]
    | cons group groups =>
      have inBranch (pair : String × Scope) (member : pair ∈ root.scopes) :
          (group :: groups, scope) ∈ branch [] pair ↔
            pair.1 = group ∧ pair.2.findScope? groups = some scope := by
        have found := @inside pair member (distinctInside_iff.mp distinctInside pair member) groups
        rw [branch_eq, List.mem_cons, List.mem_map]
        constructor
        · rintro (here | ⟨⟨below, inner⟩, walked, same⟩)
          · cases here
            exact ⟨rfl, rfl⟩
          · cases same
            exact ⟨rfl, (found.mp walked).2⟩
        · rintro ⟨rfl, isFound⟩
          by_cases empty : groups = []
          · subst empty
            cases isFound
            exact .inl rfl
          · exact .inr ⟨(groups, scope), found.mpr ⟨empty, isFound⟩, rfl⟩
      rw [findScope?, Option.bind_eq_some_iff]
      constructor
      · rintro ⟨⟨name, child⟩, member, walked⟩
        obtain ⟨rfl, isFound⟩ := (inBranch _ member).mp walked
        exact ⟨by simp, child, Table.get?_of_mem distinctScopes member, isFound⟩
      · rintro ⟨-, child, isChild, isFound⟩
        have member := Table.mem_of_get? isChild
        exact ⟨(group, child), member, (inBranch _ member).mpr ⟨rfl, isFound⟩⟩

/-! ## In which order it comes to them -/

/-- Whether a walk comes to one path before it comes to another: that of a scope around the other,
or one that branches off, in the same scope, at a name that was inserted before the other's. -/
inductive Precedes (root : Scope) : List String → List String → Prop where
  | around {groups below : List String} (inside : below ≠ []) :
      Precedes root groups (groups ++ below)
  | beside {front below otherBelow : List String} {scope : Scope} {first second : String}
      (isScope : root.findScope? front = some scope)
      (inOrder : [first, second].Sublist (Table.names scope.scopes)) :
      Precedes root (front ++ first :: below) (front ++ second :: otherBelow)

theorem Precedes.under {root child : Scope} {name : String} {groups others : List String}
    (isChild : Table.get? root.scopes name = some child) (precedes : child.Precedes groups others) :
    root.Precedes (name :: groups) (name :: others) := by
  cases precedes with
  | around inside => exact @Precedes.around root (name :: groups) _ inside
  | @beside front _ _ scope _ _ isScope inOrder =>
    refine @Precedes.beside root (name :: front) _ _ scope _ _ ?_ inOrder
    rw [findScope?, isChild]
    exact isScope

theorem Precedes.ne {root : Scope} (distinct : root.Distinct) {groups others : List String}
    (precedes : root.Precedes groups others) : groups ≠ others := by
  intro same
  cases precedes with
  | around inside => exact inside (List.self_eq_append_right.mp same)
  | @beside front _ _ scope first second isScope inOrder =>
    have siblings := (distinct_iff.mp (distinct_findScope? distinct isScope)).2.1
    obtain ⟨rfl, -⟩ := List.cons.inj (List.append_cancel_left same)
    simpa using siblings.sublist inOrder

theorem pairwise_precedes {root : Scope} (distinct : root.Distinct) :
    (root.walk []).Pairwise fun part other => root.Precedes part.1 other.1 := by
  induction root using inside_induction with
  | step root inside =>
    obtain ⟨-, distinctScopes, distinctInside⟩ := distinct_iff.mp distinct
    rw [walk_eq_flatMap, List.pairwise_flatMap]
    constructor
    · intro pair member
      have isChild := Table.get?_of_mem distinctScopes member
      have distinctChild := distinctInside_iff.mp distinctInside pair member
      rw [branch_eq, List.pairwise_cons, List.pairwise_map]
      constructor
      · intro part walked
        obtain ⟨⟨below, scope⟩, walkedInside, rfl⟩ := List.mem_map.mp walked
        exact @Precedes.around root [pair.1] below ((mem_walk_iff distinctChild).mp walkedInside).1
      · refine (inside pair member distinctChild).imp fun precedes => ?_
        exact precedes.under isChild
    · rw [List.pairwise_iff_forall_sublist]
      intro pair other inOrder part walked otherPart otherWalked
      rw [branch_eq, ← List.map_cons] at walked otherWalked
      obtain ⟨⟨below, scope⟩, -, rfl⟩ := List.mem_map.mp walked
      obtain ⟨⟨otherBelow, otherScope⟩, -, rfl⟩ := List.mem_map.mp otherWalked
      exact @Precedes.beside root [] below otherBelow root _ _ rfl (inOrder.map Prod.fst)

theorem nodup_walk {root : Scope} (distinct : root.Distinct) :
    ((root.walk []).map Prod.fst).Nodup := by
  rw [List.Nodup, List.pairwise_map]
  exact (pairwise_precedes distinct).imp (Precedes.ne distinct)

/-! ## Insertion order -/

/-- Another tree has all scopes of a tree, with their variables and scopes in the same order and
what has been added to them behind these. -/
def GrowsTo (root other : Scope) : Prop :=
  ∀ groups scope, root.findScope? groups = some scope →
    ∃ grown, other.findScope? groups = some grown ∧
      Table.names scope.entries <+: Table.names grown.entries ∧
      Table.names scope.scopes <+: Table.names grown.scopes

theorem GrowsTo.refl (root : Scope) : root.GrowsTo root :=
  fun _ scope isScope => ⟨scope, isScope, List.prefix_rfl, List.prefix_rfl⟩

theorem GrowsTo.trans {root other third : Scope} (grows : root.GrowsTo other)
    (later : other.GrowsTo third) : root.GrowsTo third := by
  intro groups scope isScope
  obtain ⟨grown, isGrown, entries, scopes⟩ := grows groups scope isScope
  obtain ⟨last, isLast, moreEntries, moreScopes⟩ := later groups grown isGrown
  exact ⟨last, isLast, entries.trans moreEntries, scopes.trans moreScopes⟩

theorem names_prefix_insert {α : Type} (table : Table α) (name : String) (entry : α) :
    Table.names table <+: Table.names (Table.insert table name entry) := by
  rw [Table.names_insert]
  split
  · exact List.prefix_rfl
  · exact List.prefix_append _ _

theorem growsTo_put (root : Scope) (name : String) (entry : Variable) (groups : List String) :
    root.GrowsTo (root.put name entry groups) := by
  intro path scope isScope
  rw [findScope?_put, isScope, Option.getD_some]
  split
  · refine ⟨_, rfl, ?_⟩
    cases groups.drop path.length with
    | nil => exact ⟨names_prefix_insert _ _ _, List.prefix_rfl⟩
    | cons group below => exact ⟨List.prefix_rfl, names_prefix_insert _ _ _⟩
  · exact ⟨scope, rfl, List.prefix_rfl, List.prefix_rfl⟩

/-- Assignments add names behind those that are there. -/
theorem growsTo_assignAll (root : Scope) (assignments : List Assignment) :
    root.GrowsTo (root.assignAll assignments) := by
  refine List.foldlRecOn (motive := root.GrowsTo) assignments _ (GrowsTo.refl root)
    fun changed grows assignment _ => ?_
  rcases changed.carryOut_cases assignment with ⟨failure, carried⟩ | ⟨entry, next, carried⟩
  · rw [carried]
    exact grows
  · obtain ⟨groups, name, -, -, rfl⟩ := assign_ok (assign_of_carryOut carried)
    rw [carried]
    exact grows.trans (growsTo_put changed name entry groups)

theorem assignAll_append (root : Scope) (earlier later : List Assignment) :
    root.assignAll (earlier ++ later) = (root.assignAll earlier).assignAll later :=
  List.foldl_append

end Scope

end ParaLang
