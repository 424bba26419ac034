import Mathlib.Data.List.Forall2
import ParaLang.Proofs.Result

/-! # Results up to places

A program that is written in another way has its tokens at other places.  Two results are alike
if they succeed with related values or fail for the same cause and path, wherever that is
reported. -/

namespace ParaLang

/-- A failure without its place. -/
def Failure.unplaced : Failure → Failure
  | .diagnostic found => .diagnostic { found with line := none, token := none }
  | .fault found => .fault found

theorem Failure.isNotFound_unplaced (failure : Failure) :
    failure.unplaced.isNotFound = failure.isNotFound := by
  cases failure <;> rfl

/-- Both results succeed with related values, or both fail for the same reason. -/
def Alike {α β : Type} (related : α → β → Prop) : Result α → Result β → Prop
  | .ok left, .ok right => related left right
  | .error left, .error right => left.unplaced = right.unplaced
  | _, _ => False

namespace Alike

variable {α β γ δ : Type} {related : α → β → Prop} {next : γ → δ → Prop}

theorem failing (cause : Cause) (line token otherLine otherToken : Option Int)
    (path : Option (List String)) :
    Alike related (fail cause line token path) (fail cause otherLine otherToken path) := rfl

theorem bind {left : Result α} {right : Result β} {leftNext : α → Result γ}
    {rightNext : β → Result δ} (alike : Alike related left right)
    (goesOn : ∀ first second, related first second →
      Alike next (leftNext first) (rightNext second)) :
    Alike next (left >>= leftNext) (right >>= rightNext) := by
  cases left with
  | error failure =>
    cases right with
    | error other => exact alike
    | ok value => cases alike
  | ok value =>
    cases right with
    | error other => cases alike
    | ok other => exact goesOn value other alike

theorem refl {result : Result α} : Alike Eq result result := by
  cases result <;> exact rfl

theorem bind_eq {left right : Result α} {leftNext : α → Result γ} {rightNext : α → Result δ}
    (alike : Alike Eq left right) (goesOn : ∀ value, Alike next (leftNext value) (rightNext value)) :
    Alike next (left >>= leftNext) (right >>= rightNext) :=
  alike.bind fun value _ equal => equal ▸ goesOn value

theorem tryCatch {left : Result α} {right : Result β} {leftNext : Failure → Result α}
    {rightNext : Failure → Result β} (alike : Alike related left right)
    (goesOn : ∀ first second, first.unplaced = second.unplaced →
      Alike related (leftNext first) (rightNext second)) :
    Alike related (left.tryCatch leftNext) (right.tryCatch rightNext) := by
  cases left with
  | error failure =>
    cases right with
    | error other => exact goesOn failure other alike
    | ok value => cases alike
  | ok value =>
    cases right with
    | error other => cases alike
    | ok other => exact alike

theorem bind_image {left : Result α} {right : Result β} {image : α → β} {leftNext : α → Result γ}
    {rightNext : β → Result δ} (alike : Alike (fun value other => other = image value) left right)
    (goesOn : ∀ value, Alike next (leftNext value) (rightNext (image value))) :
    Alike next (left >>= leftNext) (right >>= rightNext) :=
  alike.bind fun value _ equal => equal ▸ goesOn value

theorem symm {left : Result α} {right : Result β} {flipped : β → α → Prop}
    (alike : Alike related left right)
    (turned : ∀ first second, related first second → flipped second first) :
    Alike flipped right left := by
  cases left with
  | error failure =>
    cases right with
    | error other => exact Eq.symm alike
    | ok value => cases alike
  | ok value =>
    cases right with
    | error other => cases alike
    | ok other => exact turned value other alike

theorem trans {left : Result α} {middle : Result β} {right : Result γ} {later : β → γ → Prop}
    {both : α → γ → Prop} (alike : Alike related left middle) (goesOn : Alike later middle right)
    (joined : ∀ first second third, related first second → later second third →
      both first third) : Alike both left right := by
  cases left with
  | error failure =>
    cases middle with
    | error other =>
      cases right with
      | error last => exact Eq.trans alike goesOn
      | ok value => cases goesOn
    | ok value => cases alike
  | ok value =>
    cases middle with
    | error other => cases alike
    | ok other =>
      cases right with
      | error last => cases goesOn
      | ok last => exact joined value other last alike goesOn

/-- A result that succeeds is only like one that succeeds too. -/
theorem ok_left {value : α} {right : Result β} (alike : Alike related (.ok value) right) :
    ∃ other, right = .ok other ∧ related value other := by
  cases right with
  | error failure => cases alike
  | ok other => exact ⟨other, rfl, alike⟩

/-- A diagnostic is only like one with the same cause and path. -/
theorem fail_left {cause : Cause} {line token : Option Int} {path : Option (List String)}
    {right : Result β} (alike : Alike related (fail cause line token path : Result α) right) :
    ∃ otherLine otherToken, right = fail cause otherLine otherToken path := by
  cases right with
  | ok value => cases alike
  | error failure =>
    cases failure with
    | fault fault => cases alike
    | diagnostic found =>
      obtain ⟨foundCause, foundLine, foundToken, foundPath⟩ := found
      cases alike
      exact ⟨foundLine, foundToken, rfl⟩

theorem ok_iff {left right : Result α} (alike : Alike Eq left right) {value : α} :
    left = .ok value ↔ right = .ok value := by
  cases left with
  | error failure =>
    cases right with
    | error other => simp
    | ok value => cases alike
  | ok value =>
    obtain ⟨other, rfl, rfl⟩ := alike.ok_left
    rfl

theorem toOption_eq {left right : Result α} (alike : Alike Eq left right) :
    left.toOption = right.toOption := by
  cases left with
  | error failure =>
    cases right with
    | error other => rfl
    | ok value => cases alike
  | ok value =>
    obtain ⟨other, rfl, rfl⟩ := alike.ok_left
    rfl

end Alike

end ParaLang
