import ParaLang.Proofs.Decimal.Integers
import ParaLang.Proofs.Scope.Lasting

/-! # The laws of the store

An assignment either leaves the tree as it was, for one of two reasons that the tree and the
assignment tell beforehand, or it stores the converted value at its path and changes nothing else
but the scopes on the way.  Resolving a path is looking it up, with the reason why nothing is
there. -/

namespace ParaLang

/-! ## Values for a type -/

namespace Value

variable {value : Value} {type : String}

/-- The value is no integer, or one that is small enough for a float. -/
def Widens (value : Value) : Prop :=
  ∀ number, value = .int number → ∃ widened, Binary64.ofInt? number = some widened

/-- The value is of the type, or null, or an integer for a float. -/
def Suits (value : Value) (type : String) : Prop :=
  value.typeName = type ∨ value = .null ∨ (∃ number, value = .int number) ∧ type = "float"

theorem exists_coerce {declared : Option String} (widens : value.Widens)
    (suits : ∀ type ∈ declared, value.Suits type) :
    ∃ converted, value.coerce declared = .ok converted := by
  cases declared with
  | none => exact ⟨value, rfl⟩
  | some type =>
    rcases suits type rfl with same | isNull | ⟨⟨number, rfl⟩, isFloat⟩
    · exact ⟨value, if_pos (.inr same)⟩
    · exact ⟨value, if_pos (.inl isNull)⟩
    · obtain ⟨widened, isWidened⟩ := widens number rfl
      subst isFloat
      refine ⟨.float widened, ?_⟩
      simp [coerce, typeName, isWidened]

theorem coerce_of_not_suits (unsuited : ¬value.Suits type) :
    value.coerce (some type) = .error (.mismatch type value.typeName) := by
  have differs : ¬(value = .null ∨ value.typeName = type) := fun fits =>
    unsuited (fits.elim (fun isNull => .inr (.inl isNull)) .inl)
  simp only [coerce, if_neg differs]
  cases value with
  | int number =>
    have noFloat : type ≠ "float" := fun isFloat => unsuited (.inr (.inr ⟨⟨number, rfl⟩, isFloat⟩))
    simp only [if_neg noFloat]
  | float | string | bool | null => rfl

end Value

namespace Scope

/-- The computation fails for a reason of this name, at a place and with a path. -/
def Refuses {α : Type} (name : String) (line token : Option Int) (path : List String)
    (result : Result α) : Prop :=
  ∃ cause : Cause, cause.name = name ∧ result = fail cause line token path

theorem refuses_fail_iff {α : Type} {cause : Cause} {name : String} {line token : Option Int}
    {path : List String} :
    Refuses name line token path (fail cause line token path : Result α) ↔ cause.name = name := by
  constructor
  · rintro ⟨other, named, fails⟩
    cases fails
    exact named
  · intro named
    exact ⟨cause, named, rfl⟩

theorem not_refuses_ok {α : Type} {value : α} {name : String} {line token : Option Int}
    {path : List String} : ¬Refuses name line token path (.ok value) := by
  rintro ⟨_, _, fails⟩
  cases fails

variable {root changed : Scope} {path groups : List String} {name : String}

/-! ## Scopes on the way -/

/-- Some scope that the path leads through is not there. -/
def Interrupted (root : Scope) (path : List String) : Prop :=
  ∃ groups, groups <+: path ∧ groups ≠ path ∧ root.findScope? groups = none

theorem proper_prefix_snoc_iff {front : List String} :
    front <+: groups ++ [name] ∧ front ≠ groups ++ [name] ↔ front <+: groups := by
  rw [List.prefix_concat_iff]
  constructor
  · rintro ⟨rfl | onTheWay, proper⟩
    · exact absurd rfl proper
    · exact onTheWay
  · intro onTheWay
    refine ⟨.inr onTheWay, ?_⟩
    rintro rfl
    simpa [Nat.not_succ_le_self] using onTheWay.length_le

theorem findScope?_append (root : Scope) (groups path : List String) :
    root.findScope? (groups ++ path) = (root.findScope? groups).bind (·.findScope? path) := by
  induction groups generalizing root with
  | nil => rfl
  | cons group groups inductionHypothesis =>
    simp only [List.cons_append, findScope?, Option.bind_assoc]
    exact congrArg _ (funext inductionHypothesis)

theorem interrupted_snoc_iff :
    root.Interrupted (groups ++ [name]) ↔ root.findScope? groups = none := by
  constructor
  · rintro ⟨front, onTheWay, proper, absent⟩
    obtain ⟨below, rfl⟩ := proper_prefix_snoc_iff.mp ⟨onTheWay, proper⟩
    rw [findScope?_append, absent, Option.bind_none]
  · intro absent
    obtain ⟨onTheWay, proper⟩ := proper_prefix_snoc_iff.mpr (List.prefix_refl groups)
    exact ⟨groups, onTheWay, proper, absent⟩

/-! ## Resolving -/

/-- What a computation that is to resolve a path gives: the variable there, or the reason why there
is none. -/
structure Resolves (root : Scope) (path : List String) (line token : Option Int)
    (result : Result Variable) : Prop where
  found : ∀ entry, root.find? path = some entry → result = .ok entry
  interrupted : root.find? path = none →
    (Refuses "ScopeNotFound" line token path result ↔ root.Interrupted path)
  absent : root.find? path = none →
    (Refuses "VariableNotFoundInScope" line token path result ↔ ¬root.Interrupted path)

theorem resolves (root : Scope) (nonempty : path ≠ []) (line token : Option Int) :
    Resolves root path line token (root.resolve path line token) := by
  obtain ⟨groups, name, rfl⟩ := (List.eq_nil_or_concat' path).resolve_left nonempty
  rw [resolve_eq, List.getLast?_concat, List.dropLast_concat]
  cases missing : root.missingScope? groups with
  | some group =>
    have interrupted : root.Interrupted (groups ++ [name]) := by
      simp [interrupted_snoc_iff, findScope?_eq_none_iff, missing]
    have absent : root.find? (groups ++ [name]) = none := by
      rw [find?_snoc, findScope?_eq_none_iff.mpr (by simp [missing]), Option.bind_none]
    constructor
    · simp [absent]
    · simp [refuses_fail_iff, interrupted, Cause.name]
    · simp [refuses_fail_iff, interrupted, Cause.name]
  | none =>
    have uninterrupted : ¬root.Interrupted (groups ++ [name]) := by
      simp [interrupted_snoc_iff, findScope?_eq_none_iff, missing]
    cases lookedUp : root.find? (groups ++ [name]) with
    | some found => constructor <;> simp [lookedUp]
    | none =>
      constructor
      · simp [lookedUp]
      · simp [refuses_fail_iff, uninterrupted, Cause.name]
      · simp [refuses_fail_iff, uninterrupted, Cause.name]

/-! ## Assigning -/

/-- There is a variable at the path that cannot be assigned to. -/
def Protected (root : Scope) (path : List String) : Prop :=
  ∃ current, root.find? path = some current ∧ current.mutable = false

/-- What assigning a value leaves behind: the variable at the path of the assignment and the scopes
on the way to it are there, and everything else is as it was. -/
structure Stores (root : Scope) (assignment : Assignment) (value : Value) (entry : Variable)
    (changed : Scope) : Prop where
  found : changed.find? assignment.path = some entry
  coerced : value.coerce assignment.type = .ok entry.value
  type : entry.type = .string (assignment.type.getD entry.value.typeName)
  fresh : root.find? assignment.path = none →
    entry.mutable = assignment.mutable ∧ entry.temp = assignment.temp
  known : ∀ current, root.find? assignment.path = some current →
    entry.mutable = current.mutable ∧ entry.temp = current.temp
  elsewhere : ∀ path, path ≠ assignment.path → changed.find? path = root.find? path
  scopes : ∀ groups, (changed.findScope? groups).isSome = true ↔
    (root.findScope? groups).isSome = true ∨
      groups <+: assignment.path ∧ groups ≠ assignment.path

/-- What assigning a value gives and the tree that it leaves, and what decides it. -/
inductive Assigns (root : Scope) (assignment : Assignment) (value : Value) :
    Result Variable × Scope → Prop where
  | refused (isProtected : root.Protected assignment.path) :
    Assigns root assignment value
      (fail .immutableVariable assignment.line assignment.token assignment.path, root)
  | mismatched {type : String} (free : ¬root.Protected assignment.path)
      (declared : assignment.type = some type) (unsuited : ¬value.Suits type) :
    Assigns root assignment value
      (fail (.typeMismatch type value.typeName) assignment.line assignment.token assignment.path,
        root)
  | stored {entry : Variable} {changed : Scope} (free : ¬root.Protected assignment.path)
      (suits : ∀ type ∈ assignment.type, value.Suits type)
      (stores : Stores root assignment value entry changed) :
    Assigns root assignment value (.ok entry, changed)

variable {assignment : Assignment} {value : Value} {entry : Variable}

theorem coerceFor_eq (given : assignment.value = some value) {converted : Value}
    (coerced : value.coerce assignment.type = .ok converted) :
    coerceFor assignment = .ok converted := by
  simp only [coerceFor, given, coerced]

theorem entryFor_of_mutable {current : Option Variable} (free : current.any (!·.mutable) = false)
    {converted : Value} (coerced : coerceFor assignment = .ok converted) :
    ∃ entry, entryFor current name assignment = .ok entry := by
  simp [entryFor, free, coerced]

theorem protected_iff {path : List String} :
    root.Protected path ↔ (root.find? path).any (!·.mutable) = true := by
  cases found : root.find? path <;> simp [Protected, found]

theorem stores_of_ok (given : assignment.value = some value) (typed : assignment.type ≠ some "")
    (assigned : root.assign assignment = .ok (entry, changed)) {converted : Value}
    (coerced : value.coerce assignment.type = .ok converted) :
    Stores root assignment value entry changed := by
  obtain ⟨groups, name, ends, writes, rfl⟩ := assign_ok assigned
  -- the value is converted once, so what is written is what the conversion gives
  have stored : converted = entry.value :=
    Except.ok.inj ((coerceFor_eq given coerced).symm.trans writes.value)
  constructor
  case found => exact find?_assign_self assigned
  case coerced => rw [coerced, stored]
  case type =>
    rw [writes.type]
    cases declared : assignment.type with
    | none => rfl
    | some type =>
      have nonempty : type ≠ "" := by
        rintro rfl
        exact typed declared
      simp [assignedType, nonempty]
  case fresh => exact fun absent => (writes.fresh absent).2
  case known => exact fun current isFound => (writes.known current isFound).2.2
  case elsewhere => exact fun path distinct => find?_assign_of_ne assigned distinct
  case scopes =>
    intro front
    rw [ends, proper_prefix_snoc_iff, isSome_put, Bool.or_eq_true, decide_eq_true_iff, or_comm]

theorem assigns (root : Scope) (nonempty : assignment.path ≠ [])
    (given : assignment.value = some value) (widens : value.Widens)
    (typed : assignment.type ≠ some "") :
    Assigns root assignment value (root.carryOut assignment) := by
  obtain ⟨groups, name, ends⟩ := (List.eq_nil_or_concat' assignment.path).resolve_left nonempty
  rw [carryOut_snoc ends]
  by_cases isProtected : root.Protected assignment.path
  · rw [entryFor, if_pos (protected_iff.mp isProtected)]
    exact .refused isProtected
  have free : (root.find? assignment.path).any (!·.mutable) = false := by
    simpa [protected_iff] using isProtected
  by_cases suits : ∀ type ∈ assignment.type, value.Suits type
  · obtain ⟨converted, coerced⟩ := Value.exists_coerce widens suits
    obtain ⟨entry, written⟩ := entryFor_of_mutable free (coerceFor_eq given coerced)
    have assigned : root.assign assignment = .ok (entry, root.put name entry groups) := by
      rw [assign_eq ends, written]
      rfl
    rw [written]
    exact .stored isProtected suits (stores_of_ok given typed assigned coerced)
  · obtain ⟨type, declared, unsuited⟩ :
        ∃ type, assignment.type = some type ∧ ¬value.Suits type := by
      simpa [and_comm] using suits
    have mismatch : coerceFor assignment = fail (.typeMismatch type value.typeName)
        assignment.line assignment.token assignment.path := by
      simp only [coerceFor, given, declared, Value.coerce_of_not_suits unsuited]
    rw [entryFor, free, mismatch]
    exact .mismatched isProtected declared unsuited

section Outcomes

variable {carried : Result Variable × Scope}

theorem Assigns.stores (outcome : Assigns root assignment value carried)
    (succeeds : carried.1 = .ok entry) : Stores root assignment value entry carried.2 := by
  cases outcome <;> cases succeeds
  assumption

theorem Assigns.unchanged (outcome : Assigns root assignment value carried) {failure : Failure}
    (fails : carried.1 = .error failure) : carried.2 = root := by
  cases outcome with
  | refused | mismatched => rfl
  | stored => cases fails

theorem Assigns.ok_iff (outcome : Assigns root assignment value carried) :
    (∃ entry, carried.1 = .ok entry) ↔
      ¬root.Protected assignment.path ∧ ∀ type ∈ assignment.type, value.Suits type := by
  cases outcome with
  | refused isProtected => simp [fail, isProtected]
  | mismatched _ declared unsuited => simp [fail, declared, unsuited]
  | stored free suits _ => simpa [free] using suits

theorem Assigns.immutable_iff (outcome : Assigns root assignment value carried) :
    Refuses "ImmutableVariable" assignment.line assignment.token assignment.path carried.1 ↔
      root.Protected assignment.path := by
  cases outcome with
  | refused isProtected => simp [refuses_fail_iff, Cause.name, isProtected]
  | mismatched free _ _ => simp [refuses_fail_iff, Cause.name, free]
  | stored free _ _ => simp [not_refuses_ok, free]

theorem Assigns.mismatch_iff (outcome : Assigns root assignment value carried) :
    Refuses "TypeMismatch" assignment.line assignment.token assignment.path carried.1 ↔
      ¬root.Protected assignment.path ∧
        ∃ type, assignment.type = some type ∧ ¬value.Suits type := by
  cases outcome with
  | refused isProtected => simp [refuses_fail_iff, Cause.name, isProtected]
  | mismatched free declared unsuited =>
    simp [refuses_fail_iff, Cause.name, free, declared, unsuited]
  | stored free suits _ => simpa [not_refuses_ok, free] using suits

end Outcomes

/-- An assignment stores the value if neither the variable that is there nor the declared type
speaks against it; otherwise it names the first of these that does, and the tree that it leaves is
the one that was there.  Resolving the path gives the variable there, or tells whether a scope or
only the variable is missing. -/
theorem assign_laws {assignment : Assignment} {value : Value} (root : Scope)
    (nonempty : assignment.path ≠ []) (given : assignment.value = some value)
    (widens : value.Widens) (typed : assignment.type ≠ some "") :
    let result := (root.carryOut assignment).1
    let left := (root.carryOut assignment).2
    let refuses := fun name =>
      Refuses name assignment.line assignment.token assignment.path result
    (∀ entry, result = .ok entry → Stores root assignment value entry left) ∧
    (∀ failure, result = .error failure → left = root) ∧
    ((∃ entry, result = .ok entry) ↔
      ¬root.Protected assignment.path ∧ ∀ type ∈ assignment.type, value.Suits type) ∧
    (refuses "ImmutableVariable" ↔ root.Protected assignment.path) ∧
    (refuses "TypeMismatch" ↔ ¬root.Protected assignment.path ∧
      ∃ type, assignment.type = some type ∧ ¬value.Suits type) ∧
    ∀ line token,
      Resolves root assignment.path line token (root.resolve assignment.path line token) := by
  have outcome := assigns root nonempty given widens typed
  exact ⟨fun _ => outcome.stores, fun _ => outcome.unchanged, outcome.ok_iff,
    outcome.immutable_iff, outcome.mismatch_iff, resolves root nonempty⟩

theorem assign_laws_widening :
    let assignment : Assignment :=
      { path := ["g", "x"], value := some (.int 7), type := some "float", temp := true }
    (assignment.path ≠ [] ∧ (Value.int 7).Widens ∧ assignment.type ≠ some "") ∧
    (∃ entry left, ({} : Scope).carryOut assignment = (.ok entry, left) ∧
      Stores {} assignment (.int 7) entry left) ∧
    Refuses "ScopeNotFound" (some 1) none ["g", "x"]
      (({} : Scope).resolve ["g", "x"] (some 1) none) := by
  intro assignment
  have nonempty : assignment.path ≠ [] := List.cons_ne_nil _ _
  have widens : (Value.int 7).Widens := by
    rintro number ⟨⟩
    exact Binary64.ofInt?_of_bounds (by decide) (by decide)
  have typed : assignment.type ≠ some "" := by decide
  obtain ⟨stores, -, succeeds, -, -, resolved⟩ := assign_laws {} nonempty rfl widens typed
  refine ⟨⟨nonempty, widens, typed⟩, ?_, ?_⟩
  · have free : ¬({} : Scope).Protected assignment.path := by
      rintro ⟨current, found, -⟩
      cases found
    have suits : ∀ type ∈ assignment.type, (Value.int 7).Suits type := by
      rintro type ⟨⟩
      exact .inr (.inr ⟨⟨7, rfl⟩, rfl⟩)
    obtain ⟨entry, assigned⟩ := succeeds.mpr ⟨free, suits⟩
    exact ⟨entry, _, Prod.ext assigned rfl, stores entry assigned⟩
  · refine ((resolved (some 1) none).interrupted rfl).mpr ⟨["g"], ?_, ?_, rfl⟩
    · exact ⟨["x"], rfl⟩
    · decide

end Scope

end ParaLang
