import Mathlib.Data.List.Basic
import ParaLang.Proofs.Interpretation.Steps
import ParaLang.Proofs.Path
import ParaLang.Proofs.Scope.Likeness
import ParaLang.Statement

/-! # What a reference denotes

A run and the baked form find the variable of a reference in two ways: a run resolves the path and
tries again when that fails, the baked form looks the paths up.  Both find the same variable.  A
reference inside blocks denotes the variable that lies in the blocks, or else the one in the root
that its written path leads to; the scopes in between are passed over. -/

namespace ParaLang.Interpretation

variable {verbosity : Nat} {root : Scope} {groups path shorter : List String} {target : Target}
  {place : AnnotatedToken}

/-- The path leads through some scopes, by a path that goes on from there. -/
def GoesOn (groups shorter path : List String) : Prop :=
  groups ≠ [] ∧ shorter ≠ [] ∧ path = groups ++ shorter

theorem goesOn_iff : GoesOn groups shorter path ↔
    (groups ≠ [] ∧ groups.length < path.length ∧ path.take groups.length = groups) ∧
      path.drop groups.length = shorter := by
  constructor
  · rintro ⟨nonempty, nonemptyShorter, rfl⟩
    have longer : groups.length < (groups ++ shorter).length := by
      simpa using List.length_pos_iff.mpr nonemptyShorter
    exact ⟨⟨nonempty, longer, List.take_left⟩, List.drop_left⟩
  · rintro ⟨⟨nonempty, longer, front⟩, rfl⟩
    refine ⟨nonempty, by simpa using longer, ?_⟩
    have split := List.take_append_drop groups.length path
    rw [front] at split
    exact split.symm

theorem exists_goesOn_iff : (∃ shorter, GoesOn groups shorter path) ↔
    groups ≠ [] ∧ groups.length < path.length ∧ path.take groups.length = groups := by
  simp only [goesOn_iff, exists_and_left, exists_eq', and_true]

/-! ## Looking up -/

theorem reference?_of_find? {entry : Variable} (found : root.find? path = some entry) :
    Statement.reference? root groups path = some entry := by
  simp only [Statement.reference?, found]

theorem reference?_of_goesOn (absent : root.find? path = none)
    (goesOn : GoesOn groups shorter path) :
    Statement.reference? root groups path = root.find? shorter := by
  obtain ⟨leads, rest⟩ := goesOn_iff.mp goesOn
  simp only [Statement.reference?, absent, if_pos leads, rest]

theorem reference?_of_not_goesOn (absent : root.find? path = none)
    (ends : ¬∃ shorter, GoesOn groups shorter path) :
    Statement.reference? root groups path = none := by
  rw [exists_goesOn_iff] at ends
  simp only [Statement.reference?, absent, if_neg ends]

/-- A reference is a matter of the variables at its path and without the scopes. -/
theorem reference?_congr {other : Scope} (same : root.find? path = other.find? path)
    (sameShorter : ∀ shorter, GoesOn groups shorter path →
      root.find? shorter = other.find? shorter) :
    Statement.reference? root groups path = Statement.reference? other groups path := by
  cases found : root.find? path with
  | some entry => rw [reference?_of_find? found, reference?_of_find? (same.symm.trans found)]
  | none =>
    have absent := same.symm.trans found
    by_cases goes : ∃ shorter, GoesOn groups shorter path
    · obtain ⟨shorter, goesOn⟩ := goes
      rw [reference?_of_goesOn found goesOn, reference?_of_goesOn absent goesOn,
        sameShorter shorter goesOn]
    · rw [reference?_of_not_goesOn found goes, reference?_of_not_goesOn absent goes]

/-! ## Resolving -/

theorem exists_resolve_error (absent : root.find? path = none) (line token : Option Int) :
    ∃ failure, root.resolve path line token = .error failure := by
  have nothing := root.toOption_resolve path line token
  rw [absent] at nothing
  cases resolved : root.resolve path line token with
  | error failure => exact ⟨failure, rfl⟩
  | ok found => simp [resolved, Except.toOption] at nothing

theorem resolve_of_find? {entry : Variable} (found : root.find? path = some entry)
    (line token : Option Int) : root.resolve path line token = .ok entry := by
  have same := root.toOption_resolve path line token
  rw [found] at same
  cases resolved : root.resolve path line token with
  | error failure => simp [resolved, Except.toOption] at same
  | ok other =>
    simp only [resolved, Except.toOption, Option.some.injEq] at same
    rw [same]

theorem outcome_resolveReference_of_find? {entry : Variable}
    (found : root.find? path = some entry) :
    (resolveReference verbosity root target path place).outcome = .ok entry := by
  rw [outcome_resolveReference, resolve_of_find? found, Result.ok_tryCatch]

theorem outcome_resolveReference_of_goesOn (absent : root.find? path = none)
    (goesOn : GoesOn target.path.dropLast shorter path) :
    (resolveReference verbosity root target path place).outcome =
      root.resolve shorter place.line place.number := by
  obtain ⟨failure, fails⟩ := exists_resolve_error absent place.line place.number
  -- a path that goes on names a variable, so that nothing but its absence is reported
  have isNotFound : failure.isNotFound = true := by
    refine Scope.isNotFound_of_resolve ?_ fails
    rw [goesOn.2.2]
    exact List.append_ne_nil_of_right_ne_nil _ goesOn.2.1
  obtain ⟨⟨nonempty, longer, front⟩, rest⟩ := goesOn_iff.mp goesOn
  have leads : ¬((!failure.isNotFound) = true ∨ target.path.dropLast = [] ∨
      path.length ≤ target.path.dropLast.length ∨
      path.take target.path.dropLast.length ≠ target.path.dropLast) := by
    simp [isNotFound, nonempty, Nat.not_le.mpr longer, front, -List.length_dropLast]
  simp only [outcome_resolveReference, fails, Result.error_tryCatch, if_neg leads, rest]

theorem outcome_resolveReference_of_not_goesOn (absent : root.find? path = none)
    (ends : ¬∃ shorter, GoesOn target.path.dropLast shorter path) :
    (resolveReference verbosity root target path place).outcome =
      root.resolve path place.line place.number := by
  obtain ⟨failure, fails⟩ := exists_resolve_error absent place.line place.number
  have stays : target.path.dropLast = [] ∨ path.length ≤ target.path.dropLast.length ∨
      path.take target.path.dropLast.length ≠ target.path.dropLast := by
    by_contra leads
    simp only [not_or, not_not, Nat.not_le] at leads
    exact ends (exists_goesOn_iff.mpr leads)
  simp only [outcome_resolveReference, fails, Result.error_tryCatch, if_pos (Or.inr stays)]

/-- A reference leads to the variable at its path, or else at the path without the scopes of the
target. -/
theorem toOption_resolveReference (root : Scope) (target : Target) (path : List String)
    (place : AnnotatedToken) :
    (resolveReference verbosity root target path place).outcome.toOption =
      Statement.reference? root target.path.dropLast path := by
  cases found : root.find? path with
  | some entry =>
    rw [outcome_resolveReference_of_find? found, reference?_of_find? found]
    rfl
  | none =>
    by_cases goes : ∃ shorter, GoesOn target.path.dropLast shorter path
    · obtain ⟨shorter, goesOn⟩ := goes
      rw [outcome_resolveReference_of_goesOn found goesOn, reference?_of_goesOn found goesOn,
        Scope.toOption_resolve]
    · rw [outcome_resolveReference_of_not_goesOn found goes, reference?_of_not_goesOn found goes,
        Scope.toOption_resolve, found]

/-- What a path refers to in a statement whose target lies in some scopes: the variable found, and
the result of resolving it. -/
structure RefersTo (root : Scope) (groups path : List String) (line token : Option Int)
    (found? : Option Variable) (resolved : Result Variable) : Prop where
  agrees : resolved.toOption = found?
  whole : ∀ found, root.find? path = some found → found? = some found
  fallback : root.find? path = none → ∀ shorter, GoesOn groups shorter path →
    found? = root.find? shorter
  nothing : root.find? path = none → (¬∃ shorter, GoesOn groups shorter path) → found? = none
  failsShorter : found? = none → ∀ shorter, GoesOn groups shorter path →
    resolved = root.resolve shorter line token
  fails : found? = none → (¬∃ shorter, GoesOn groups shorter path) →
    resolved = root.resolve path line token

theorem find?_of_reference?_eq_none (nothing : Statement.reference? root groups path = none) :
    root.find? path = none := by
  cases found : root.find? path with
  | none => rfl
  | some entry =>
    rw [reference?_of_find? found] at nothing
    cases nothing

theorem refersTo (verbosity : Nat) (root : Scope) (target : Target) (path : List String)
    (place : AnnotatedToken) :
    RefersTo root target.path.dropLast path place.line place.number
      (Statement.reference? root target.path.dropLast path)
      (resolveReference verbosity root target path place).outcome where
  agrees := toOption_resolveReference root target path place
  whole _ isFound := reference?_of_find? isFound
  fallback absent _ goesOn := reference?_of_goesOn absent goesOn
  nothing absent ends := reference?_of_not_goesOn absent ends
  failsShorter nothing _ goesOn :=
    outcome_resolveReference_of_goesOn (find?_of_reference?_eq_none nothing) goesOn
  fails nothing ends :=
    outcome_resolveReference_of_not_goesOn (find?_of_reference?_eq_none nothing) ends

/-- After an `=` a path produces the value of the variable that it leads to. -/
theorem toOption_valueAfter_segment (root : Scope) (target : Target) (assign : AnnotatedToken)
    {first : AnnotatedToken} (segment : first.isSegment = true) (others : List AnnotatedToken) :
    (valueAfter verbosity root target assign (first :: others)).outcome.toOption =
      (Statement.reference? root target.path.dropLast (pathAt (first :: others))).map
        fun found => some found.value := by
  have noValue : first.role ≠ .value := by
    intro isValue
    simp [AnnotatedToken.isSegment, isValue, Role.isSegment] at segment
  rw [valueAfter, if_neg noValue, if_pos segment, Traced.outcome_bind,
    ← @toOption_resolveReference verbosity root target _ first]
  cases (resolveReference verbosity root target _ first).outcome <;> rfl

/-! ## References in blocks -/

section Blocks

open Annotations (NumberedToken Frame)

/-- The names of the open blocks, outermost first. -/
def blockNames (state : Annotations.State) : List String :=
  state.frames.reverse.map Frame.name

/-- Read forward, the path of the open blocks goes on with the path behind it. -/
theorem pathAt_blockPath (state : Annotations.State) (place : NumberedToken)
    (segments : List AnnotatedToken) :
    pathAt (state.blockPath place ++ segments) = blockNames state ++ pathAt segments := by
  unfold Annotations.State.blockPath blockNames
  induction state.frames.reverse with
  | nil => rfl
  | cons frame frames inductionHypothesis =>
    exact congrArg (frame.name :: ·) ((pathTail_arrow rfl _).trans inductionHypothesis)

theorem reference?_blockNames (root : Scope) (names path : List String) (named : names ≠ []) :
    Statement.reference? root names (names ++ path) =
      (root.find? (names ++ path)).or (root.find? path) := by
  cases found : root.find? (names ++ path) with
  | some entry => rw [reference?_of_find? found, Option.some_or]
  | none =>
    rcases List.eq_nil_or_concat' path with rfl | ⟨front, last, rfl⟩
    · have ends : ¬∃ shorter, GoesOn names shorter (names ++ []) := by
        rintro ⟨shorter, -, nonempty, split⟩
        exact nonempty (List.append_cancel_left split).symm
      rw [reference?_of_not_goesOn found ends]
      rfl
    · have goesOn : GoesOn names (front ++ [last]) (names ++ (front ++ [last])) :=
        ⟨named, by simp, rfl⟩
      rw [reference?_of_goesOn found goesOn, Option.none_or]

/-- The path of some open blocks starts with a segment. -/
theorem exists_blockPath {state : Annotations.State} (inBlocks : state.frames ≠ [])
    (place : NumberedToken) : ∃ first others, state.blockPath place = first :: others ∧
      first.isSegment = true := by
  unfold Annotations.State.blockPath
  cases frames : state.frames.reverse with
  | nil => simp [inBlocks] at frames
  | cons frame frames => exact ⟨_, _, rfl, rfl⟩

end Blocks

/-- Resolving a reference and looking it up find the same variable: the one at the path, or else
the one at the part of the path that goes on from the scopes of the target; if both fail, the run
reports the last of these paths.  Behind the path of some open blocks, a reference of a statement
that defines a name directly in them denotes what it leads to from the blocks, or else from the
root. -/
theorem references_agree (verbosity : Nat) (root : Scope) (target : Target) :
    (∀ path place, RefersTo root target.path.dropLast path place.line place.number
      (Statement.reference? root target.path.dropLast path)
      (resolveReference verbosity root target path place).outcome) ∧
    ∀ (state : Annotations.State) (place : Annotations.NumberedToken) (assign : AnnotatedToken)
      (written : List AnnotatedToken) (name : String),
      state.frames ≠ [] → target.path = blockNames state ++ [name] →
      let path := blockNames state ++ pathAt written
      let denoted := (root.find? path).or (root.find? (pathAt written))
      pathAt (state.blockPath place ++ written) = path ∧
      (∀ token, (resolveReference verbosity root target path token).outcome.toOption = denoted) ∧
      (valueAfter verbosity root target assign
        (state.blockPath place ++ written)).outcome.toOption =
          denoted.map fun found => some found.value := by
  refine ⟨refersTo verbosity root target, ?_⟩
  intro state place assign written name inBlocks aims path denoted
  have named : blockNames state ≠ [] := by simpa [blockNames] using inBlocks
  -- the scopes of the target are the blocks, so what goes on from them is what has been written
  have reference : Statement.reference? root target.path.dropLast path = denoted := by
    rw [aims, List.dropLast_concat, reference?_blockNames root _ _ named]
  have read : pathAt (state.blockPath place ++ written) = path :=
    pathAt_blockPath state place written
  refine ⟨read, fun token => ?_, ?_⟩
  · rw [toOption_resolveReference, reference]
  · obtain ⟨first, others, split, segment⟩ := exists_blockPath inBlocks place
    rw [← reference, ← read, split, List.cons_append]
    exact toOption_valueAfter_segment root target assign segment _

/-- In `g -> h -> { x = y }` the name is not that of `g -> y`. -/
theorem references_agree_passing :
    let outer : Variable := ⟨"y", .int 1, .string "int", false, false⟩
    let between : Variable := ⟨"y", .int 2, .string "int", false, false⟩
    let root := (({} : Scope).put "y" outer []).put "y" between ["g"]
    let state : Annotations.State := { frames := [⟨"h", none, true⟩, ⟨"g", none, false⟩] }
    let name : Annotations.NumberedToken := ⟨⟨.identifier, "y", 1, 16⟩, 7⟩
    let target : Target := { path := ["g", "h", "x"], line := 1, number := 5 }
    state.frames ≠ [] ∧ target.path = blockNames state ++ ["x"] ∧
    (valueAfter 0 root target (name.inRole .assign)
      (state.blockPath name ++ [name.inRole .lookup])).outcome.toOption = some (some (.int 1)) := by
  intro outer between root state name target
  have inBlocks : state.frames ≠ [] := List.cons_ne_nil _ _
  have aims : target.path = blockNames state ++ ["x"] := rfl
  obtain ⟨-, denoted⟩ := references_agree 0 root target
  obtain ⟨-, -, value⟩ :=
    denoted state name (name.inRole .assign) [name.inRole .lookup] "x" inBlocks aims
  exact ⟨inBlocks, aims, value⟩

end ParaLang.Interpretation
