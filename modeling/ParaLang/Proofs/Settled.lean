import ParaLang.Expression.Postfix
import ParaLang.Proofs.Result

/-! # Results that settle

A partial computation settles if its value has a property or its failure is an allowed one.  The
failures of a sound run are diagnostics at the places of its tokens; faults are never allowed. -/

namespace ParaLang

/-- A value has the property, and a failure is allowed. -/
def Settles {α : Type} (allowed : Failure → Prop) (property : α → Prop) : Result α → Prop
  | .ok value => property value
  | .error failure => allowed failure

namespace Settles

variable {α β : Type} {allowed : Failure → Prop} {property : α → Prop} {next : β → Prop}

theorem bind {first : Result α} {goesOn : α → Result β} (settles : Settles allowed property first)
    (later : ∀ value, property value → Settles allowed next (goesOn value)) :
    Settles allowed next (first >>= goesOn) := by
  cases first with
  | error failure => exact settles
  | ok value => exact later value settles

theorem mono {result : Result α} {weaker : α → Prop} (settles : Settles allowed property result)
    (implies : ∀ value, property value → weaker value) : Settles allowed weaker result := by
  cases result with
  | error failure => exact settles
  | ok value => exact implies value settles

theorem of_ok {result : Result α} {value : α} (settles : Settles allowed property result)
    (succeeds : result = .ok value) : property value := by
  rwa [succeeds] at settles

theorem of_error {result : Result α} {failure : Failure}
    (settles : Settles allowed property result) (fails : result = .error failure) :
    allowed failure := by
  rwa [fails] at settles

end Settles

/-- A diagnostic tells one of some places. -/
def Diagnostic.At (places : Place → Prop) (diagnostic : Diagnostic) : Prop :=
  ∃ place, places place ∧ diagnostic.line = some place.line ∧ diagnostic.token = some place.number

/-- A diagnostic at one of some places, or at none. -/
def Placed (places : Place → Prop) : Failure → Prop
  | .diagnostic found => (found.line = none ∧ found.token = none) ∨ found.At places
  | .fault _ => False

/-- A diagnostic at one of some places.  An expression that leaves nothing to evaluate is reported
at none; `hollow` tells whether there is one. -/
def Located (places : Place → Prop) (hollow : Prop) : Failure → Prop
  | .diagnostic found => (hollow ∧ found = ⟨.noResult, none, none, none⟩) ∨ found.At places
  | .fault _ => False

section Located

variable {α : Type} {places : Place → Prop} {hollow : Prop} {property : α → Prop} {place : Place}

theorem settles_fail (inside : places place) (cause : Cause) (path : Option (List String)) :
    Settles (Located places hollow) property
      (fail cause (some place.line) (some place.number) path : Result α) :=
  .inr ⟨place, inside, rfl, rfl⟩

theorem settles_refuse (inside : places place) (cause : Cause) :
    Settles (Located places hollow) property (place.refuse cause : Result α) :=
  settles_fail inside cause none

theorem Settles.placed {result : Result α} (settles : Settles (Located places hollow) property result) :
    Settles (Placed places) property result :=
  match result, settles with
  | .ok _, holds => holds
  | .error (.diagnostic _), .inl ⟨_, nowhere⟩ => .inl (nowhere ▸ ⟨rfl, rfl⟩)
  | .error (.diagnostic _), .inr somewhere => .inr somewhere

end Located

end ParaLang
