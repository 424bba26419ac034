import ParaLang.Proofs.Annotations.Sources
import ParaLang.Proofs.Interpretation.Steps
import ParaLang.Proofs.Scope.Contents

/-! # Runs do not go wrong

On the annotated tokens of a text every step keeps the tree well typed, and it fails only with a
diagnostic at the place of a token.  From this follow the two results on whole programs: a run
that succeeds leaves a typed store, and a run that fails ends in a diagnostic. -/

namespace ParaLang

open Annotations (Furnished typeNames)
open Expression (SoundOperand settles_require)

/-! ## Stored variables -/

/-- A variable of a run is stored under its own name, and its value is null or of its type. -/
structure WellStored (name : String) (entry : Variable) : Prop where
  named : entry.name = name
  typed : ∃ type ∈ "null" :: typeNames, entry.type = .string type ∧
    (entry.value = .null ∨ entry.value.typeName = type)
  fits : entry.value.Fits

theorem Value.typeName_mem (value : Value) : value.typeName ∈ "null" :: typeNames := by
  cases value <;> simp [typeName, typeNames]

theorem Value.eq_null_of_typeName {value : Value} (isNull : value.typeName = "null") :
    value = .null := by
  cases value <;> simp [typeName] at isNull ⊢

/-- A value that fits is converted to one that fits, or does not match the type. -/
theorem Value.coerce_cases {value : Value} (fits : value.Fits) (declared : Option String) :
    (∃ converted, value.coerce declared = .ok converted ∧ converted.Fits ∧
      ∀ type ∈ declared, converted = .null ∨ converted.typeName = type) ∨
    ∃ expected actual, value.coerce declared = .error (.mismatch expected actual) := by
  unfold coerce
  split
  · exact .inl ⟨value, rfl, fits, by simp⟩
  · rename_i type
    split
    · rename_i passes
      exact .inl ⟨value, rfl, fits, by simpa using passes⟩
    · split
      · rename_i number _
        obtain ⟨lower, upper⟩ := fits number rfl
        obtain ⟨widened, isWidened⟩ := Binary64.ofInt?_of_bounds lower upper
        split
        · rename_i isFloat
          rw [isWidened]
          refine .inl ⟨.float widened, rfl, by rintro _ ⟨⟩, ?_⟩
          simp [isFloat, typeName]
        · exact .inr ⟨_, _, rfl⟩
      · exact .inr ⟨_, _, rfl⟩

variable {places : Place → Prop} {hollow : Prop}

namespace Scope

variable {root : Scope} {assignment : Assignment} {place : Place}

theorem settles_coerceFor (line : assignment.line = some place.line)
    (token : assignment.token = some place.number) (inside : places place)
    (sound : SoundOperand assignment.value) :
    Settles (Located places hollow) (fun value => value.Fits ∧
      ∀ type ∈ assignment.type, value = .null ∨ value.typeName = type) (coerceFor assignment) := by
  obtain ⟨value, given, fits⟩ := sound
  simp only [coerceFor, given]
  rcases value.coerce_cases fits assignment.type with
    ⟨converted, coerced, holds⟩ | ⟨expected, actual, mismatch⟩
  · rw [coerced]
    exact holds
  · rw [mismatch, line, token]
    exact settles_fail inside _ _

/-- What an assignment of a sound value writes is well stored. -/
theorem wellStored_assigned {name : String} {value : Value} {declared : Option String}
    (fits : value.Fits) (known : ∀ type ∈ declared, type ∈ typeNames)
    (matching : ∀ type ∈ declared, value = .null ∨ value.typeName = type) (mutable temp : Bool) :
    WellStored name ⟨name, value, .string (assignedType declared value), mutable, temp⟩ := by
  refine ⟨rfl, ?_, fits⟩
  cases declared with
  | none => exact ⟨_, value.typeName_mem, rfl, .inr rfl⟩
  | some type =>
    have isKnown := known type rfl
    have nonempty : type ≠ "" := by
      rintro rfl
      exact absurd isKnown (by decide)
    refine ⟨type, List.mem_cons_of_mem _ isKnown, ?_, matching type rfl⟩
    simp [assignedType, nonempty]

theorem settles_assign (holds : root.Holds WellStored) (line : assignment.line = some place.line)
    (token : assignment.token = some place.number) (inside : places place)
    (known : ∀ type ∈ assignment.type, type ∈ typeNames) (sound : SoundOperand assignment.value) :
    Settles (Located places hollow) (fun written => written.2.Holds WellStored)
      (root.assign assignment) := by
  rcases List.eq_nil_or_concat' assignment.path with empty | ⟨groups, name, ends⟩
  · rw [assign_nil empty, line, token]
    exact settles_fail inside _ _
  · rw [assign_eq ends]
    refine Settles.bind ?_ fun entry stored => holds_put groups holds stored
    rw [entryFor]
    split
    · rw [line, token]
      exact settles_fail inside _ _
    · refine (settles_coerceFor line token inside sound).bind fun value coerced => ?_
      obtain ⟨fits, matching⟩ := coerced
      have stored := @wellStored_assigned name value assignment.type fits known matching
      cases found : root.find? assignment.path with
      | none => exact stored _ _
      | some current =>
        obtain ⟨front, last, isPath, before⟩ := holds_find? holds found
        obtain ⟨-, rfl⟩ :=
          List.append_inj' (ends.symm.trans isPath) rfl |>.imp id List.singleton_inj.mp
        have named : current.name = name := before.named
        exact named ▸ stored _ _

theorem settles_resolve (holds : root.Holds WellStored) (path : List String)
    (inside : places place) :
    Settles (Located places hollow) (fun found => found.value.Fits)
      (root.resolve path (some place.line) (some place.number)) := by
  rw [resolve_eq]
  split
  · exact settles_fail inside _ _
  · split
    · exact settles_fail inside _ _
    · split
      · rename_i found isFound
        obtain ⟨_, _, -, stored⟩ := holds_find? holds isFound
        exact stored.fits
      · exact settles_fail inside _ _

theorem fittingRoot (holds : root.Holds WellStored) : Expression.FittingRoot root :=
  fun _ _ found => (holds_get? holds found).fits

end Scope

namespace Interpretation

/-! ## Targets and references -/

/-- A target is at one of the places, and its type can be written. -/
structure SoundTarget (places : Place → Prop) (target : Target) : Prop where
  inside : places ⟨target.line, target.number⟩
  known : ∀ type ∈ target.type, type ∈ typeNames

/-- Every token carries what it has to. -/
def AllFurnished (places : Place → Prop) (tokens : List AnnotatedToken) : Prop :=
  ∀ token ∈ tokens, Furnished places token

theorem allFurnished_cons {token : AnnotatedToken} {tokens : List AnnotatedToken} :
    AllFurnished places (token :: tokens) ↔ Furnished places token ∧ AllFurnished places tokens :=
  List.forall_mem_cons

variable {token : AnnotatedToken} {passed rest : List AnnotatedToken} {root : Scope}
  {state : State} {target : Target} {value : Option Value}

theorem settles_targetEndingAt {type : Option String} (known : ∀ name ∈ type, name ∈ typeNames)
    (furnished : Furnished places token) (before : AllFurnished places passed) :
    Settles (Located places hollow) (SoundTarget places) (targetEndingAt type token passed) := by
  cases passed with
  | nil => exact settles_fail furnished.inside _ _
  | cons name earlier =>
    simp only [targetEndingAt]
    split
    · exact ⟨(allFurnished_cons.mp before).1.inside, known⟩
    · exact settles_fail furnished.inside _ _

theorem settles_targetBefore (furnished : Furnished places token)
    (before : AllFurnished places passed) :
    Settles (Located places hollow) (SoundTarget places) (targetBefore token passed) := by
  have untyped : ∀ name ∈ (none : Option String), name ∈ typeNames := by simp
  cases passed with
  | nil => exact settles_targetEndingAt untyped furnished before
  | cons last earlier =>
    simp only [targetBefore]
    split
    · rename_i isType
      obtain ⟨type, known, given⟩ := (allFurnished_cons.mp before).1.typed isType
      exact settles_targetEndingAt (by simpa [given] using known) furnished
        (allFurnished_cons.mp before).2
    · exact settles_targetEndingAt untyped furnished before

theorem settles_resolveReference (verbosity : Nat) (holds : root.Holds WellStored)
    (target : Target) (path : List String) (inside : places token.place) :
    Settles (Located places hollow) (fun found => found.value.Fits)
      (resolveReference verbosity root target path token).outcome := by
  have resolved (path : List String) :=
    @Scope.settles_resolve places hollow root token.place holds path inside
  rw [outcome_resolveReference]
  cases isResolved : root.resolve path token.line token.number with
  | ok found => exact (resolved path).of_ok isResolved
  | error failure =>
    rw [Result.error_tryCatch]
    split
    · exact (resolved path).of_error isResolved
    · exact resolved _

theorem settles_valueAfter (verbosity : Nat) (holds : root.Holds WellStored) (target : Target)
    (furnished : Furnished places token) (after : AllFurnished places rest) :
    Settles (Located places hollow) SoundOperand
      (valueAfter verbosity root target token rest).outcome := by
  cases rest with
  | nil => exact settles_fail furnished.inside _ _
  | cons next later =>
    obtain ⟨furnishedNext, -⟩ := allFurnished_cons.mp after
    simp only [valueAfter]
    split
    · rename_i isValue
      exact furnishedNext.valued isValue
    · split
      · simp only [Traced.outcome_bind]
        exact (settles_resolveReference verbosity holds target _ furnishedNext.inside).bind
          fun found fits => ⟨found.value, rfl, fits⟩
      · exact settles_fail furnishedNext.inside _ _

/-! ## Steps -/

/-- The tree is well typed, and so will be what the pending target is assigned. -/
structure SoundState (places : Place → Prop) (state : State) : Prop where
  holds : state.root.Holds WellStored
  waits : ∀ target ∈ state.pending, SoundTarget places target

theorem settles_commit (verbosity : Nat) (sound : SoundState places state)
    (soundTarget : SoundTarget places target) (soundValue : SoundOperand value) :
    Settles (Located places hollow) (SoundState places)
      (commit verbosity state target value).outcome := by
  have assigned := @Scope.settles_assign places hollow state.root (target.assignment value)
    ⟨target.line, target.number⟩ sound.holds rfl rfl soundTarget.inside soundTarget.known soundValue
  simp only [commit, Traced.outcome_bind, Traced.outcome_lift, Traced.outcome_note, Result.ok_bind]
  exact assigned.bind fun written holds => ⟨holds, sound.waits⟩

theorem settles_inspect (furnished : AllFurnished places passed) (state : State)
    (place : AnnotatedToken) :
    Settles (Located places hollow) (fun _ => True) (inspect state place passed) := by
  cases passed with
  | nil => trivial
  | cons last earlier =>
    simp only [inspect]
    split
    · rename_i isValue
      exact (settles_require ((allFurnished_cons.mp furnished).1.valued isValue)).bind
        fun _ _ => trivial
    · split <;> trivial

/-- A step keeps the tree well typed, or ends the run with a diagnostic at a token. -/
theorem settles_step (verbosity : Nat) (sound : SoundState places state)
    (before : AllFurnished places passed) (furnished : Furnished places token)
    (after : AllFurnished places rest)
    (empty : ∀ run, token.expression = some run → Expression.toPostfix run = .ok [] → hollow) :
    Settles (Located places hollow) (SoundState places)
      (step verbosity state passed token rest).outcome := by
  cases role : token.role with
  | assign =>
    rw [outcome_step_assign role]
    refine (settles_targetBefore furnished before).bind fun target soundTarget => ?_
    split
    · exact ⟨sound.holds, by rintro _ ⟨⟩; exact soundTarget⟩
    · exact (settles_valueAfter verbosity sound.holds target furnished after).bind
        fun value soundValue => settles_commit verbosity sound soundTarget soundValue
  | expression =>
    cases isPending : state.pending with
    | none =>
      rw [outcome_step_unassigned role isPending]
      exact settles_fail furnished.inside _ _
    | some target =>
      obtain ⟨items, given, soundItems⟩ := furnished.itemized role
      rw [outcome_step_evaluated role isPending given]
      refine (Expression.settles_evaluate (Scope.fittingRoot sound.holds) verbosity soundItems
        (empty items given)).bind fun value soundValue => ?_
      exact settles_commit verbosity ⟨sound.holds, by simp⟩ (sound.waits target isPending) soundValue
  | inspect =>
    rw [outcome_step_inspect role]
    exact (settles_inspect before state token).bind fun _ _ => ⟨sound.holds, sound.waits⟩
  | _ =>
    rw [outcome_step_quiet (by simp [isQuiet, role])]
    exact sound

/-- So does a whole run. -/
theorem settles_walk (verbosity : Nat) {tokens : List AnnotatedToken}
    (furnished : AllFurnished places tokens) (sound : SoundState places state)
    (before : AllFurnished places passed)
    (empties : ∀ token ∈ tokens, ∀ run, token.expression = some run →
      Expression.toPostfix run = .ok [] → hollow) :
    Settles (Located places hollow) (SoundState places)
      (walk verbosity state passed tokens).outcome := by
  induction tokens generalizing state passed with
  | nil => exact sound
  | cons token rest inductionHypothesis =>
    obtain ⟨furnishedToken, furnishedRest⟩ := allFurnished_cons.mp furnished
    simp only [walk, Traced.outcome_bind]
    obtain ⟨empty, emptiesRest⟩ := List.forall_mem_cons.mp empties
    exact (settles_step verbosity sound before furnishedToken furnishedRest empty).bind
      fun next soundNext => inductionHypothesis furnishedRest soundNext
        (allFurnished_cons.mpr ⟨furnishedToken, before⟩) emptiesRest

theorem soundState_start : SoundState places {} :=
  ⟨Scope.holds_empty, by simp⟩

end Interpretation

/-! ## Programs -/

theorem settles_interpret (verbosity : Nat) {tokens : List AnnotatedToken}
    (furnished : Interpretation.AllFurnished places tokens)
    (empties : ∀ token ∈ tokens, ∀ run, token.expression = some run →
      Expression.toPostfix run = .ok [] → hollow) :
    Settles (Located places hollow) (fun outcome => outcome.root.Holds WellStored)
      (interpret verbosity tokens).outcome := by
  simp only [interpret, Traced.outcome_bind, Traced.outcome_note, Result.ok_bind]
  exact (Interpretation.settles_walk verbosity furnished Interpretation.soundState_start
    (by simp [Interpretation.AllFurnished]) empties).bind fun _ sound => sound.holds

theorem settles_runProgram (verbosity : Nat) (source : String) :
    Settles (Annotations.Reported source) (fun outcome => outcome.root.Holds WellStored)
      (runProgram verbosity source).outcome := by
  simp only [runProgram, Traced.outcome_bind, Traced.outcome_lift]
  refine (Annotations.annotateSource_settles source).bind fun tokens furnished => ?_
  have settles := @settles_interpret _ True verbosity tokens furnished fun _ _ _ _ _ => trivial
  cases outcome : (interpret verbosity tokens).outcome with
  | ok final => exact settles.of_ok outcome
  | error failure =>
    cases failure with
    | diagnostic diagnostic => trivial
    | fault fault => exact (settles.of_error outcome).elim

/-- Whatever the text and the verbosity, a run returns a tree or ends in a diagnostic, or else the
text has an integer of more digits than are read. -/
theorem runProgram_returns_or_reports (verbosity : Nat) (source : String) :
    (∃ outcome, (runProgram verbosity source).outcome = .ok outcome) ∨
      (∃ diagnostic, (runProgram verbosity source).outcome = .error (.diagnostic diagnostic)) ∨
      ((runProgram verbosity source).outcome = .error (.fault .malformedNumber) ∧
        Annotations.HasOverlong source) := by
  have settles := settles_runProgram verbosity source
  cases result : (runProgram verbosity source).outcome with
  | ok outcome => exact .inl ⟨outcome, rfl⟩
  | error failure =>
    have reported := settles.of_error result
    cases failure with
    | diagnostic diagnostic => exact .inr (.inl ⟨diagnostic, rfl⟩)
    | fault fault =>
      obtain ⟨rfl, overlong⟩ := reported
      exact .inr (.inr ⟨rfl, overlong⟩)

/-- The variables of a tree that a run has built, at any depth: each is stored under its own name,
has one of five types, and holds null or a value of this type, integers within 32 bits. -/
theorem runProgram_typedStore {verbosity : Nat} {source : String} {outcome : Outcome}
    (succeeds : (runProgram verbosity source).outcome = .ok outcome) :
    ∀ part ∈ outcome.root.sections, ∀ stored ∈ part.2.entries,
      stored.2.name = stored.1 ∧
      ∃ type ∈ ["int", "float", "string", "bool", "null"], stored.2.type = .string type ∧
        (stored.2.value = .null ∨ stored.2.value.typeName = type) ∧
        (type = "null" → stored.2.value = .null) ∧
        ∀ number, stored.2.value = .int number → -2 ^ 31 ≤ number ∧ number ≤ 2 ^ 31 - 1 := by
  intro part inTree stored inPart
  have holds := (settles_runProgram verbosity source).of_ok succeeds
  obtain ⟨named, ⟨type, known, isType, matching⟩, fits⟩ :=
    Scope.holds_of_mem_sections holds part inTree stored inPart
  refine ⟨named, type, ?_, isType, matching, fun isNull => ?_, fits⟩
  · revert known
    simp only [typeNames, List.mem_cons, List.not_mem_nil, or_false]
    tauto
  · rcases matching with null | same
    · exact null
    · exact Value.eq_null_of_typeName (same.trans isNull)

/-- An expression in a block, and an inspection of what it makes. -/
def blockProgram : String := "a=2\ng->\x7bb=a*3\nb?\x7d"

def blockTokens : List Token :=
  [⟨.identifier, "a", 1, 1⟩, ⟨.equals, "=", 1, 2⟩, ⟨.int, "2", 1, 3⟩, ⟨.newline, "\n", 1, 4⟩,
    ⟨.identifier, "g", 2, 1⟩, ⟨.arrow, "->", 2, 2⟩, ⟨.leftBrace, "\x7b", 2, 4⟩,
    ⟨.identifier, "b", 2, 5⟩, ⟨.equals, "=", 2, 6⟩, ⟨.identifier, "a", 2, 7⟩, ⟨.star, "*", 2, 8⟩,
    ⟨.int, "3", 2, 9⟩, ⟨.newline, "\n", 2, 10⟩, ⟨.identifier, "b", 3, 1⟩,
    ⟨.question, "?", 3, 2⟩, ⟨.rightBrace, "\x7d", 3, 3⟩, ⟨.endOfInput, "", 3, 4⟩]

theorem tokenize_blockProgram : Token.tokenize blockProgram = .ok blockTokens :=
  Token.tokenize_of_cutWithin? 16 rfl

def blockOutcome : Outcome where
  root := {
    entries := [("a", ⟨"a", .int 2, .string "int", false, false⟩)]
    scopes := [("g", { entries := [("b", ⟨"b", .int 6, .string "int", false, false⟩)] })] }
  inspections := [⟨3, 2, some "g-> b", "int", "6"⟩]

theorem runProgram_blockProgram : (runProgram 0 blockProgram).outcome = .ok blockOutcome := by
  rw [runProgram, annotateSource, tokenize_blockProgram]
  rfl

theorem runProgram_typedStore_block :
    ∃ outcome, (runProgram 0 blockProgram).outcome = .ok outcome ∧
      ∀ part ∈ outcome.root.sections, ∀ stored ∈ part.2.entries,
        stored.2.name = stored.1 ∧
        ∃ type ∈ ["int", "float", "string", "bool", "null"], stored.2.type = .string type ∧
          (stored.2.value = .null ∨ stored.2.value.typeName = type) ∧
          (type = "null" → stored.2.value = .null) ∧
          ∀ number, stored.2.value = .int number → -2 ^ 31 ≤ number ∧ number ≤ 2 ^ 31 - 1 :=
  ⟨_, runProgram_blockProgram, runProgram_typedStore runProgram_blockProgram⟩

end ParaLang
