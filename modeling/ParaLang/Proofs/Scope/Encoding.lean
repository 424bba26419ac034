import ParaLang.Proofs.Scope.Distinct
import ParaLang.Scope.State

/-! # A tree survives its plain form

In plain data a value loses its type: a whole number that was a float is still read as a float only
because the declared type says so.  A tree is restored from its plain form if no integer stands
under a declared float and if each table holds a name once, under which the variable knows itself.
Every assignment keeps trees so, and every tree that is read from plain data is so. -/

namespace ParaLang

/-! ## Values -/

/-- A value is read back as it was unless it is an integer that is declared to be a float. -/
theorem Value.ofPlain_toPlain_iff {declared : Option String} {value : Value} :
    Value.ofPlain declared value.toPlain = .ok value ↔
      (declared = some "float" → ∀ number, value ≠ .int number) := by
  cases value with
  | int number =>
    by_cases isFloat : declared = some "float"
    · cases widened : Binary64.ofInt? number <;>
        simp [Value.toPlain, Value.ofPlain, isFloat, widened]
    · simp [Value.toPlain, Value.ofPlain, isFloat]
  | _ => simp [Value.toPlain, Value.ofPlain]

/-- What is read from plain data under a declared type is read again as it is. -/
theorem Value.ofPlain_again {declared : Option String} {datum : Plain} {value : Value}
    (read : Value.ofPlain declared datum = .ok value) :
    Value.ofPlain declared value.toPlain = .ok value := by
  refine Value.ofPlain_toPlain_iff.mpr fun isFloat number isInt => ?_
  subst isInt
  cases datum with
  | int other => cases widened : Binary64.ofInt? other <;> simp [Value.ofPlain, isFloat, widened] at read
  | _ => simp [Value.ofPlain] at read

/-- A converted value is null or has the type it was converted to. -/
theorem Value.typeName_of_coerce {value converted : Value} {type : String}
    (coerced : value.coerce (some type) = .ok converted) :
    converted = .null ∨ converted.typeName = type := by
  simp only [Value.coerce] at coerced
  split at coerced
  case isTrue fits =>
    cases coerced
    exact fits
  case isFalse =>
    split at coerced
    case h_1 number =>
      split at coerced
      case isTrue isFloat =>
        split at coerced <;> cases coerced
        exact .inr isFloat.symm
      case isFalse => cases coerced
    case h_2 => cases coerced

namespace Scope

/-! ## Variables -/

/-- A variable that is read back from its plain form: it stands under its own name, and its type
brings its value back. -/
structure Rereads (key : String) (entry : Variable) : Prop where
  named : entry.name = key
  typed : Value.ofPlain (typeName? entry.type) entry.value.toPlain = .ok entry.value

theorem decode_variable {key : String} {entry : Variable} (rereads : Rereads key entry) :
    Variable.decode key entry.encode = .ok entry := by
  have flag : ∀ set : Bool, (some (Plain.bool set)).any Plain.isSet = set := by simp [Plain.isSet]
  simp [Variable.encode, Variable.decode, Table.get?, rereads.typed, ← rereads.named, flag]

theorem rereads_decode {key : String} {datum : Plain} {entry : Variable}
    (decoded : Variable.decode key datum = .ok entry) : Rereads key entry := by
  cases datum with
  | object members =>
    rw [Variable.decode] at decoded
    split at decoded
    · cases decoded
    · obtain ⟨value, read, made⟩ := Result.bind_eq_ok_iff.mp decoded
      cases made
      exact ⟨rfl, Value.ofPlain_again read⟩
  | _ => cases decoded

theorem rereads_decodeEntries {members : List (String × Plain)}
    {entries : List (String × Variable)} (decoded : decodeEntries members = .ok entries) :
    ∀ pair ∈ entries, Rereads pair.1 pair.2 := by
  induction members generalizing entries with
  | nil =>
    cases decoded
    simp
  | cons head rest inductionHypothesis =>
    obtain ⟨entry, first, decoded⟩ := Result.bind_eq_ok_iff.mp decoded
    obtain ⟨others, later, made⟩ := Result.bind_eq_ok_iff.mp decoded
    cases made
    simpa using ⟨rereads_decode first, fun key entry => inductionHypothesis later (key, entry)⟩

theorem decodeEntries_encode {entries : List (String × Variable)}
    (rereads : ∀ pair ∈ entries, Rereads pair.1 pair.2) :
    decodeEntries (entries.map fun (name, entry) => (name, entry.encode)) = .ok entries := by
  induction entries with
  | nil => rfl
  | cons head rest inductionHypothesis =>
    rw [List.forall_mem_cons] at rereads
    simp only [List.map_cons, decodeEntries, decode_variable rereads.1,
      inductionHypothesis rereads.2, Result.ok_bind, Result.pure_eq_ok]

/-! ## Trees that are restored -/

/-- A tree that its plain form brings back. -/
structure Restorable (root : Scope) : Prop where
  distinct : root.Distinct
  rereads : root.Holds Rereads

theorem restorable_iff {scope : Scope} : scope.Restorable ↔
    ((Table.names scope.entries).Nodup ∧ ∀ pair ∈ scope.entries, Rereads pair.1 pair.2) ∧
      (Table.names scope.scopes).Nodup ∧ ∀ pair ∈ scope.scopes, pair.2.Restorable := by
  constructor
  · intro ⟨distinct, rereads⟩
    obtain ⟨entries, scopes, inside⟩ := distinct_iff.mp distinct
    obtain ⟨reread, rereadInside⟩ := holds_iff.mp rereads
    exact ⟨⟨entries, reread⟩, scopes, fun pair member =>
      ⟨distinctInside_iff.mp inside pair member, holdsInside_iff.mp rereadInside pair member⟩⟩
  · intro ⟨⟨entries, reread⟩, scopes, inside⟩
    exact ⟨distinct_iff.mpr ⟨entries, scopes,
        distinctInside_iff.mpr fun pair member => (inside pair member).distinct⟩,
      holds_iff.mpr ⟨reread, holdsInside_iff.mpr fun pair member => (inside pair member).rereads⟩⟩

theorem restorable_empty : ({} : Scope).Restorable :=
  ⟨distinct_empty, holds_empty⟩

/-! ### Assigning -/

/-- The converted value of an assignment is read back under the type that goes with it. -/
theorem ofPlain_of_coerceFor {assignment : Assignment} {value : Value}
    (coerced : coerceFor assignment = .ok value) :
    Value.ofPlain (some (assignedType assignment.type value)) value.toPlain = .ok value := by
  refine Value.ofPlain_toPlain_iff.mpr fun isFloat number isInt => ?_
  subst isInt
  cases given : assignment.value with
  | none => cases declared : assignment.type <;> simp [coerceFor, given, declared, fail,
      Value.require] at coerced
  | some original =>
    cases declared : assignment.type with
    | none => simp [assignedType, declared, Value.typeName] at isFloat
    | some type =>
      simp only [coerceFor, given, declared] at coerced
      split at coerced
      · next converted =>
        cases coerced
        have typed : "int" = type :=
          (Value.typeName_of_coerce converted).resolve_left (by simp)
        subst typed
        simp [assignedType, declared] at isFloat
      · cases coerced
      · cases coerced

theorem rereads_of_writes {root : Scope} {assignment : Assignment} {groups : List String}
    {name : String} {entry : Variable} (ends : assignment.path = groups ++ [name])
    (holds : root.Holds Rereads) (writes : Writes root assignment name entry) :
    Rereads name entry := by
  refine ⟨?_, ?_⟩
  · cases current : root.find? assignment.path with
    | none => exact (writes.fresh current).1
    | some found =>
      obtain ⟨before, last, isPath, rereads⟩ := holds_find? holds current
      obtain ⟨-, rfl⟩ := List.append_inj' (ends.symm.trans isPath) rfl |>.imp id List.singleton_inj.mp
      rw [(writes.known found current).2.1, rereads.named]
  · rw [writes.type]
    exact ofPlain_of_coerceFor writes.value

theorem restorable_assign {root changed : Scope} {assignment : Assignment} {entry : Variable}
    (restorable : root.Restorable) (assigned : root.assign assignment = .ok (entry, changed)) :
    changed.Restorable := by
  obtain ⟨groups, name, ends, writes, rfl⟩ := assign_ok assigned
  exact ⟨distinct_put name entry groups restorable.distinct,
    holds_put groups restorable.rereads (rereads_of_writes ends restorable.rereads writes)⟩

/-- One assignment after another, each on the tree that the one before has left. -/
def assignAll (root : Scope) (assignments : List Assignment) : Scope :=
  assignments.foldl (fun root assignment => (root.carryOut assignment).2) root

theorem restorable_assignAll {root : Scope} (assignments : List Assignment)
    (restorable : root.Restorable) : (root.assignAll assignments).Restorable := by
  refine List.foldlRecOn (motive := Restorable) assignments _ restorable
    fun root restorable assignment _ => ?_
  rcases root.carryOut_cases assignment with ⟨failure, carried⟩ | ⟨entry, changed, carried⟩
  · rw [carried]
    exact restorable
  · rw [carried]
    exact restorable_assign restorable (assign_of_carryOut carried)

/-! ### Decoding -/

theorem restorable_decodeVariables {members : List (String × Plain)} {entries : Table Variable}
    (decoded : decodeVariables members = .ok entries) :
    (Table.names entries).Nodup ∧ ∀ pair ∈ entries, Rereads pair.1 pair.2 := by
  unfold decodeVariables at decoded
  split at decoded
  · cases decoded
    exact ⟨List.nodup_nil, by simp⟩
  · obtain ⟨pairs, read, made⟩ := Result.bind_eq_ok_iff.mp decoded
    cases made
    exact ⟨Table.nodup_ofPairs pairs, fun pair member =>
      rereads_decodeEntries read pair (Table.mem_of_mem_ofPairs pair member)⟩
  · cases decoded

mutual

/-- A tree is restorable whatever plain data it was read from. -/
theorem restorable_decode {state : Plain} {root : Scope} (decoded : decode state = .ok root) :
    root.Restorable := by
  match state with
  | .object members =>
    rw [decode] at decoded
    obtain ⟨entries, declared, decoded⟩ := Result.bind_eq_ok_iff.mp decoded
    obtain ⟨scopes, inside, made⟩ := Result.bind_eq_ok_iff.mp decoded
    cases made
    exact restorable_iff.mpr
      ⟨restorable_decodeVariables declared, restorable_decodeScopesMember inside⟩
  | .null | .bool _ | .int _ | .float _ | .string _ | .array _ => simp [decode] at decoded

theorem restorable_decodeScopesMember {members : List (String × Plain)}
    {scopes : List (String × Scope)} (decoded : decodeScopesMember members = .ok scopes) :
    (Table.names scopes).Nodup ∧ ∀ pair ∈ scopes, pair.2.Restorable := by
  match members with
  | [] =>
    cases decoded
    exact ⟨List.nodup_nil, by simp⟩
  | (name, member) :: rest =>
    rw [decodeScopesMember] at decoded
    split at decoded
    · exact restorable_decodeScopes decoded
    · exact restorable_decodeScopesMember decoded

theorem restorable_decodeScopes {datum : Plain} {scopes : List (String × Scope)}
    (decoded : decodeScopes datum = .ok scopes) :
    (Table.names scopes).Nodup ∧ ∀ pair ∈ scopes, pair.2.Restorable := by
  match datum with
  | .object members =>
    rw [decodeScopes] at decoded
    obtain ⟨children, read, made⟩ := Result.bind_eq_ok_iff.mp decoded
    cases made
    exact ⟨Table.nodup_ofPairs children, fun pair member =>
      restorable_decodeChildren read pair (Table.mem_of_mem_ofPairs pair member)⟩
  | .null | .bool _ | .int _ | .float _ | .string _ | .array _ => simp [decodeScopes] at decoded

theorem restorable_decodeChildren {members : List (String × Plain)}
    {children : List (String × Scope)} (decoded : decodeChildren members = .ok children) :
    ∀ pair ∈ children, pair.2.Restorable := by
  match members with
  | [] =>
    cases decoded
    simp
  | (name, child) :: rest =>
    rw [decodeChildren] at decoded
    obtain ⟨first, read, decoded⟩ := Result.bind_eq_ok_iff.mp decoded
    obtain ⟨others, later, made⟩ := Result.bind_eq_ok_iff.mp decoded
    cases made
    exact List.forall_mem_cons.mpr ⟨restorable_decode read, restorable_decodeChildren later⟩

end

/-! ## The variables that are kept -/

mutual

/-- The tree with some of its variables and with all of its scopes. -/
def keep (kept : Variable → Bool) : Scope → Scope
  | ⟨entries, scopes⟩ => ⟨entries.filter (kept ·.2), keepInside kept scopes⟩

def keepInside (kept : Variable → Bool) : List (String × Scope) → List (String × Scope)
  | [] => []
  | (name, child) :: rest => (name, child.keep kept) :: keepInside kept rest

end

theorem names_keepInside (kept : Variable → Bool) (scopes : List (String × Scope)) :
    Table.names (keepInside kept scopes) = Table.names scopes := by
  induction scopes with
  | nil => rfl
  | cons head rest inductionHypothesis =>
    simpa [keepInside, Table.names] using inductionHypothesis

mutual

theorem keep_all (root : Scope) : root.keep (fun _ => true) = root := by
  match root with
  | ⟨entries, scopes⟩ => rw [keep, keepInside_all scopes, List.filter_true]

theorem keepInside_all (scopes : List (String × Scope)) :
    keepInside (fun _ => true) scopes = scopes := by
  match scopes with
  | [] => rfl
  | (name, child) :: rest => rw [keepInside, keep_all child, keepInside_all rest]

end

/-! ## The round trip -/

mutual

theorem decode_encode {root : Scope} (includeTemp : Bool) (restorable : root.Restorable) :
    decode (root.encode includeTemp) =
      .ok (root.keep fun entry => includeTemp || !entry.temp) := by
  match root with
  | ⟨entries, scopes⟩ =>
    obtain ⟨⟨distinct, rereads⟩, distinctScopes, inside⟩ := restorable_iff.mp restorable
    have names : (Table.names (entries.filter fun pair => includeTemp || !pair.2.temp)).Nodup :=
      (List.filter_sublist.map Prod.fst).nodup distinct
    have written : ∀ pair ∈ entries.filter fun pair => includeTemp || !pair.2.temp,
        Rereads pair.1 pair.2 := fun pair member => rereads pair (List.mem_of_mem_filter member)
    have namesInside := names_keepInside (fun entry => includeTemp || !entry.temp) scopes
    simp only [encode, encodeVariables, decode, decodeVariables, Table.get?, if_true, reduceIte,
      String.reduceEq, decodeEntries_encode written, Table.ofPairs_of_nodup names, Result.ok_bind,
      Result.pure_eq_ok, decodeScopesMember, decodeScopes,
      decodeChildren_encodeScopes includeTemp inside,
      Table.ofPairs_of_nodup (namesInside ▸ distinctScopes), keep]

theorem decodeChildren_encodeScopes {scopes : List (String × Scope)} (includeTemp : Bool)
    (restorable : ∀ pair ∈ scopes, pair.2.Restorable) :
    decodeChildren (encodeScopes includeTemp scopes) =
      .ok (keepInside (fun entry => includeTemp || !entry.temp) scopes) := by
  match scopes with
  | [] => rfl
  | (name, child) :: rest =>
    rw [List.forall_mem_cons] at restorable
    simp only [encodeScopes, decodeChildren, decode_encode includeTemp restorable.1,
      decodeChildren_encodeScopes includeTemp restorable.2, Result.ok_bind, Result.pure_eq_ok,
      keepInside]

end

/-- The full plain form of a tree that assignments have built brings the tree back, and the usual
one the tree without its temporary variables.  A tree that was read from plain data, be it written
by hand, is read from its own plain form again. -/
theorem decode_encode_of_reachable :
    (∀ assignments : List Assignment,
      let root := ({} : Scope).assignAll assignments
      decode (root.encode true) = .ok root ∧
        decode (root.encode false) = .ok (root.keep fun entry => !entry.temp)) ∧
    ∀ (state : Plain) (root : Scope), decode state = .ok root →
      decode (root.encode true) = .ok root := by
  have full : ∀ {root : Scope}, root.Restorable → decode (root.encode true) = .ok root := by
    intro root restorable
    simpa [keep_all] using decode_encode true restorable
  refine ⟨fun assignments => ?_, fun state root decoded => full (restorable_decode decoded)⟩
  have restorable := restorable_assignAll assignments restorable_empty
  exact ⟨full restorable, by simpa using decode_encode false restorable⟩

/-- An integer under a type that names none, and a flag that is a text. -/
theorem decode_encode_of_ill_typed :
    decode (.object [("variables", .object [("n", .object [("type", .int 7), ("value", .int 4),
      ("mutable", .string "yes")])]), ("scopes", .object [("g", .object [])])]) =
        .ok ⟨[("n", ⟨"n", .int 4, .int 7, true, false⟩)], [("g", ⟨[], []⟩)]⟩ ∧
      decode (encode true ⟨[("n", ⟨"n", .int 4, .int 7, true, false⟩)], [("g", ⟨[], []⟩)]⟩) =
        .ok ⟨[("n", ⟨"n", .int 4, .int 7, true, false⟩)], [("g", ⟨[], []⟩)]⟩ :=
  ⟨rfl, decode_encode_of_reachable.2 (.object [("variables", .object [("n", .object [
      ("type", .int 7), ("value", .int 4), ("mutable", .string "yes")])]),
    ("scopes", .object [("g", .object [])])]) _ rfl⟩

end Scope

end ParaLang
