import ParaLang.Proofs.Interpretation.Steps
import ParaLang.Proofs.Scope.Store

/-! # The tree only grows

Nothing is ever removed from the tree of a run: scopes and variables stay at their paths with
their flags, and a variable that is not mutable stays as it is. -/

namespace ParaLang

namespace Scope

/-! ## Growth -/

/-- Whatever is in the earlier tree is still there in the later one. -/
structure Grows (earlier later : Scope) : Prop where
  keepsScopes : ∀ path, (earlier.findScope? path).isSome → (later.findScope? path).isSome
  keepsVariables : ∀ path entry, earlier.find? path = some entry →
    ∃ kept, later.find? path = some kept ∧ kept.mutable = entry.mutable ∧
      kept.temp = entry.temp ∧ (entry.mutable = false → kept = entry)

theorem Grows.refl (root : Scope) : root.Grows root where
  keepsScopes _ present := present
  keepsVariables _ entry found := ⟨entry, found, rfl, rfl, fun _ => rfl⟩

theorem Grows.trans {first second third : Scope} (before : first.Grows second)
    (after : second.Grows third) : first.Grows third where
  keepsScopes path present := after.keepsScopes path (before.keepsScopes path present)
  keepsVariables path entry found := by
    obtain ⟨kept, isKept, mutable, temp, same⟩ := before.keepsVariables path entry found
    obtain ⟨last, isLast, lastMutable, lastTemp, lastSame⟩ := after.keepsVariables path kept isKept
    refine ⟨last, isLast, lastMutable.trans mutable, lastTemp.trans temp, fun immutable => ?_⟩
    rw [lastSame (mutable.trans immutable), same immutable]

/-- A variable that is not mutable is still the same later on. -/
theorem Grows.immutable {earlier later : Scope} {path : List String} {entry : Variable}
    (grows : earlier.Grows later) (found : earlier.find? path = some entry)
    (immutable : entry.mutable = false) : later.find? path = some entry := by
  obtain ⟨kept, isKept, -, -, same⟩ := grows.keepsVariables path entry found
  rw [isKept, same immutable]

theorem isSome_findScope?_put {root : Scope} {path : List String} (name : String)
    (entry : Variable) (groups : List String) (present : (root.findScope? path).isSome) :
    ((root.put name entry groups).findScope? path).isSome := by
  rw [findScope?_put]
  split
  · rfl
  · exact present

theorem grows_of_assign {root changed : Scope} {assignment : Assignment} {entry : Variable}
    (assigned : root.assign assignment = .ok (entry, changed)) : root.Grows changed := by
  obtain ⟨groups, name, ends, writes, rfl⟩ := assign_ok assigned
  refine ⟨fun path => isSome_findScope?_put name entry groups, fun path current found => ?_⟩
  by_cases target : path = assignment.path
  · subst target
    obtain ⟨mutable, -, sameMutable, sameTemp⟩ := writes.known current found
    refine ⟨entry, by rw [ends, find?_put_self], sameMutable, sameTemp, fun immutable => ?_⟩
    exact absurd (mutable.symm.trans immutable) (by decide)
  · refine ⟨current, ?_, rfl, rfl, fun _ => rfl⟩
    rw [find?_put_of_ne root name entry (ends ▸ target), found]

end Scope

namespace Interpretation

variable {verbosity : Nat} {point earlier later : Point}

/-! ## Growth along a run -/

theorem grows_of_moves (moves : Moves verbosity point later) :
    point.state.root.Grows later.state.root := by
  cases moves with
  | step stepped =>
    cases effect_of_step stepped with
    | nothing | waits | inspects => exact Scope.Grows.refl _
    | assigns _ assigned => exact Scope.grows_of_assign assigned

theorem grows_of_leads (leads : Leads verbosity earlier later) :
    earlier.state.root.Grows later.state.root := by
  induction leads with
  | refl => exact Scope.Grows.refl _
  | tail _ moves inductionHypothesis => exact inductionHypothesis.trans (grows_of_moves moves)

/-- The step at a point assigns a value to a target. -/
def Point.Assigns (verbosity : Nat) (point : Point) (target : Target) (value : Option Value) :
    Prop :=
  ∃ token rest, point.rest = token :: rest ∧
    Interpretation.Assigns verbosity point.state point.passed token rest target value

theorem ending_of_refused {target : Target} {value : Option Value} {failure : Failure}
    (assigns : point.Assigns verbosity target value)
    (refused : point.state.root.assign (target.assignment value) = .error failure) :
    point.ending verbosity = .error failure := by
  obtain ⟨token, rest, more, assigns⟩ := assigns
  simp [Point.ending, more, walk, step_refused assigns refused]

/-- Between any two points of a run the tree grows, and so it does up to the tree of a run that
succeeds.  A later assignment to a variable that is not mutable ends the run, whatever value,
type and flags it brings. -/
theorem run_keeps_tree {tokens : List AnnotatedToken}
    (start : Leads verbosity { rest := tokens } earlier) (goesOn : Leads verbosity earlier later) :
    earlier.state.root.Grows later.state.root ∧
    (∀ outcome, (interpret verbosity tokens).outcome = .ok outcome →
      later.state.root.Grows outcome.root) ∧
    ∀ entry target value, later.Assigns verbosity target value →
      earlier.state.root.find? target.path = some entry → entry.mutable = false →
      (interpret verbosity tokens).outcome =
        fail .immutableVariable target.line target.number target.path := by
  have wholeRun := (ending_of_leads start).trans (ending_of_leads goesOn)
  refine ⟨grows_of_leads goesOn, fun outcome succeeds => ?_,
    fun entry target value assigns found immutable => ?_⟩
  · rw [outcome_interpret, wholeRun] at succeeds
    cases ends : later.ending verbosity with
    | error failure => simp [ends, Except.map] at succeeds
    | ok final =>
      obtain ⟨all, leads⟩ := leads_to_end ends
      rw [ends] at succeeds
      obtain rfl := Except.ok.inj succeeds
      exact grows_of_leads leads
  · -- the variable has stayed as it was up to the assignment, which is refused for that
    have still := (grows_of_leads goesOn).immutable found immutable
    have refused := @Scope.assign_immutable _ (target.assignment value) _ still immutable
    rw [outcome_interpret, wholeRun, ending_of_refused assigns refused]
    rfl

/-- Two lines that assign to the same name. -/
def assignedTwice : List AnnotatedToken :=
  [{ role := .identifier, literal := "x", kind := .identifier, line := 1, number := 1 },
    { role := .assign, literal := "=", kind := .equals, line := 1, number := 2 },
    { role := .value, literal := "1", kind := .int, line := 1, number := 3, value := some (.int 1) },
    { role := .newline, literal := "\n", kind := .newline, line := 1, number := 4 },
    { role := .identifier, literal := "x", kind := .identifier, line := 2, number := 1,
      mutable := true },
    { role := .assign, literal := "=", kind := .equals, line := 2, number := 2 },
    { role := .value, literal := "2", kind := .int, line := 2, number := 3, value := some (.int 2) },
    { role := .endOfInput, literal := "", kind := .endOfInput, line := 2, number := 4 }]

/-- The point of `assignedTwice` before the token of some index after the first line. -/
def afterFirstLine (index : Nat) : Point where
  passed := (assignedTwice.take index).reverse
  state := { root := { entries := [("x", ⟨"x", .int 1, .string "int", false, false⟩)] } }
  rest := assignedTwice.drop index

theorem run_keeps_tree_assignedTwice :
    Leads 0 { rest := assignedTwice } (afterFirstLine 4) ∧
    Leads 0 (afterFirstLine 4) (afterFirstLine 5) ∧
    (afterFirstLine 4).state.root.Grows (afterFirstLine 5).state.root ∧
    (interpret 0 assignedTwice).outcome =
      fail .immutableVariable (2 : Int) (1 : Int) (some ["x"]) := by
  have start : Leads 0 { rest := assignedTwice } (afterFirstLine 4) :=
    .head (.step rfl) <| .head (.step rfl) <| .head (.step rfl) <| .head (.step rfl) .refl
  have goesOn : Leads 0 (afterFirstLine 4) (afterFirstLine 5) := .single (.step rfl)
  have assigns : (afterFirstLine 5).Assigns 0 ⟨["x"], none, true, false, 2, 1⟩ (some (.int 2)) :=
    ⟨_, _, rfl, .direct rfl rfl rfl rfl⟩
  obtain ⟨grows, -, refuses⟩ := run_keeps_tree start goesOn
  exact ⟨start, goesOn, grows, refuses _ _ _ assigns rfl rfl⟩

end Interpretation

end ParaLang
