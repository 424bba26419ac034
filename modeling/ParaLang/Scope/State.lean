import ParaLang.Scope

/-! # The scope tree as plain data

A scope is an object with its `variables` and its `scopes`.  A variable is an object with its
`type`, `value`, `mutable` and `temp`; only the type has to be there. -/

namespace ParaLang

/-! ## Encoding -/

def Variable.encode (entry : Variable) : Plain :=
  .object [("type", entry.type), ("value", entry.value.toPlain),
    ("mutable", .bool entry.mutable), ("temp", .bool entry.temp)]

namespace Scope

def encodeVariables (includeTemp : Bool) (entries : Table Variable) : Plain :=
  .object ((entries.filter fun (_, entry) => includeTemp || !entry.temp).map
    fun (name, entry) => (name, entry.encode))

mutual

def encode (includeTemp : Bool) : Scope → Plain
  | ⟨entries, scopes⟩ =>
    .object [("variables", encodeVariables includeTemp entries),
      ("scopes", .object (encodeScopes includeTemp scopes))]

def encodeScopes (includeTemp : Bool) : List (String × Scope) → List (String × Plain)
  | [] => []
  | (name, child) :: rest => (name, child.encode includeTemp) :: encodeScopes includeTemp rest

end

end Scope

/-! ## Decoding -/

/-- The value of a scalar.  An integer declared as a float becomes one; anything else keeps the
type it has. -/
def Value.ofPlain (declared : Option String) : Plain → Except Fault Value
  | .null => .ok .null
  | .bool value => .ok (.bool value)
  | .int value =>
    if declared = some "float" then
      match Binary64.ofInt? value with
      | some widened => .ok (.float widened)
      | none => .error .tooLargeForFloat
    else .ok (.int value)
  | .float value => .ok (.float value)
  | .string value => .ok (.string value)
  | .array _ => .error (.notConvertible "list")
  | .object _ => .error (.notConvertible "dict")

/-- The name of a type; a datum that is no text names none. -/
def typeName? : Plain → Option String
  | .string name => some name
  | _ => none

def Variable.decode (name : String) : Plain → Except Fault Variable
  | .object members =>
    match Table.get? members "type" with
    | none => .error .missingType
    | some type => do
      let value ← Value.ofPlain (typeName? type) ((Table.get? members "value").getD .null)
      let flag (key : String) : Bool := (Table.get? members key).any Plain.isSet
      return ⟨name, value, type, flag "mutable", flag "temp"⟩
  | _ => .error .entryIsNoObject

namespace Scope

def decodeEntries : List (String × Plain) → Except Fault (List (String × Variable))
  | [] => .ok []
  | (name, entry) :: rest => do
    let decoded ← Variable.decode name entry
    return (name, decoded) :: (← decodeEntries rest)

def decodeVariables (members : List (String × Plain)) : Except Fault (Table Variable) :=
  match Table.get? members "variables" with
  | none => .ok []
  | some (.object declared) => do return Table.ofPairs (← decodeEntries declared)
  | some _ => .error .noObject

mutual

def decode : Plain → Except Fault Scope
  | .object members => do
    let entries ← decodeVariables members
    return ⟨entries, ← decodeScopesMember members⟩
  | _ => .error .noObject

/-- The scopes of the first member named `scopes`. -/
def decodeScopesMember : List (String × Plain) → Except Fault (List (String × Scope))
  | [] => .ok []
  | (name, member) :: rest =>
    if name = "scopes" then decodeScopes member else decodeScopesMember rest

def decodeScopes : Plain → Except Fault (List (String × Scope))
  | .object members => do return Table.ofPairs (← decodeChildren members)
  | _ => .error .noObject

def decodeChildren : List (String × Plain) → Except Fault (List (String × Scope))
  | [] => .ok []
  | (name, child) :: rest => do
    let decoded ← decode child
    return (name, decoded) :: (← decodeChildren rest)

end

end Scope

end ParaLang
