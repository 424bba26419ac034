import ParaLang.Failure

/-! # The scope tree

A scope holds variables and further scopes, both in the order in which they were first written.  A
path names a variable by the scopes that lead to it and its own name. -/

namespace ParaLang

/-- An assignment makes the type the name of a type; the type of a variable that comes from outside
may be any datum. -/
structure Variable where
  name : String
  value : Value
  type : Plain
  mutable : Bool := false
  temp : Bool := false

/-- A variable with its type, value and flags, in the scope whose path is `heading`. -/
def Variable.line (heading : String) (entry : Variable) : String :=
  heading ++ entry.name ++ " : " ++ entry.type.text ++ " = " ++ entry.value.display ++
    (if entry.mutable then " [muta]" else "") ++ (if entry.temp then " [temp]" else "")

structure Scope where
  /-- The variables that lie directly in the scope. -/
  entries : List (String × Variable) := []
  /-- The scopes that lie directly in the scope. -/
  scopes : List (String × Scope) := []

namespace Scope

/-! ## Looking up -/

/-- The scope that a sequence of names leads to. -/
def findScope? (scope : Scope) : List String → Option Scope
  | [] => some scope
  | group :: groups => (Table.get? scope.scopes group).bind (findScope? · groups)

/-- The variable at a path, if there is one. -/
def find? (scope : Scope) (path : List String) : Option Variable :=
  match path.getLast? with
  | none => none
  | some name => (scope.findScope? path.dropLast).bind (Table.get? ·.entries name)

/-- The scope that a sequence of names leads to, or the first name on the way that is no scope. -/
def descend (scope : Scope) : List String → Except String Scope
  | [] => .ok scope
  | group :: groups =>
    match Table.get? scope.scopes group with
    | none => .error group
    | some child => child.descend groups

/-- The variable at a path, or the reason why there is none. -/
def resolve (scope : Scope) (path : List String) (line token : Option Int := none) :
    Result Variable :=
  match path.getLast? with
  | none => fail .emptyPath line token
  | some name =>
    match scope.descend path.dropLast with
    | .error group => fail (.scopeNotFound group) line token path
    | .ok innermost =>
      match Table.get? innermost.entries name with
      | some found => .ok found
      | none => fail (.variableNotFound name) line token path

/-! ## Writing -/

/-- Creates the scopes that are missing on the way along some groups. -/
def openScopes (scope : Scope) : List String → Scope
  | [] => scope
  | group :: groups =>
    let child := (Table.get? scope.scopes group).getD {}
    { scope with scopes := Table.insert scope.scopes group (child.openScopes groups) }

/-- Puts a variable into the scope that the groups lead to, creating the scopes that are missing. -/
def put (scope : Scope) (name : String) (entry : Variable) : List String → Scope
  | [] => { scope with entries := Table.insert scope.entries name entry }
  | group :: groups =>
    let child := (Table.get? scope.scopes group).getD {}
    { scope with scopes := Table.insert scope.scopes group (child.put name entry groups) }

end Scope

/-- Converts a value to a declared type.  A value of the type and the null value pass as they are,
and an integer widens to a float. -/
def Value.coerce (value : Value) (declared : Option String) : Except Fault Value :=
  match declared with
  | none => .ok value
  | some type =>
    if value = .null ∨ value.typeName = type then .ok value
    else match value with
      | .int number =>
        if type = "float" then
          match Binary64.ofInt? number with
          | some widened => .ok (.float widened)
          | none => .error .tooLargeForFloat
        else .error (.mismatch type value.typeName)
      | _ => .error (.mismatch type value.typeName)

/-- A value to be written at a path, with the flags of a new variable and the place to report.  The
value is missing if the token it comes from carries none; such an assignment always fails. -/
structure Assignment where
  path : List String
  value : Option Value
  type : Option String := none
  mutable : Bool := false
  temp : Bool := false
  line : Option Int := none
  token : Option Int := none

namespace Scope

/-- A value that does not fit the declared type becomes a diagnostic of the assignment. -/
def coerceFor (assignment : Assignment) : Result Value :=
  match assignment.value with
  | none =>
    if assignment.type.isSome then
      fail .absentValue assignment.line assignment.token assignment.path
    else Value.require none
  | some value =>
    match value.coerce assignment.type with
    | .ok value => .ok value
    | .error (.mismatch expected actual) =>
      fail (.typeMismatch expected actual) assignment.line assignment.token assignment.path
    | .error fault => .error (.fault fault)

/-- The type of a variable after an assignment: the declared one, or else that of the value. -/
def assignedType (declared : Option String) (value : Value) : String :=
  match declared with
  | some type => if type = "" then value.typeName else type
  | none => value.typeName

/-- A computation that changes a tree as it goes.  If it fails, what it has changed by then stays
changed. -/
abbrev Change (α : Type) := ExceptT Failure (StateM Scope) α

/-- Assigns to a variable and returns it.  An existing variable has to be mutable and keeps its
flags; a missing one is created after the scopes that lead to it. -/
def change (assignment : Assignment) : Change Variable := do
  match assignment.path.getLast? with
  | none => fail .noTarget assignment.line assignment.token
  | some name =>
    let groups := assignment.path.dropLast
    let current := ((← get).findScope? groups).bind (Table.get? ·.entries name)
    if current.any (!·.mutable) then
      fail .immutableVariable assignment.line assignment.token assignment.path
    else
      let value ← coerceFor assignment
      let type := Plain.string (assignedType assignment.type value)
      match current with
      | some current =>
        let entry := { current with value := value, type := type }
        modify (·.put name entry groups)
        return entry
      | none =>
        modify (·.openScopes groups)
        let entry : Variable := ⟨name, value, type, assignment.mutable, assignment.temp⟩
        modify (·.put name entry groups)
        return entry

/-- What an assignment to a tree gives, and the tree that it leaves, whether it fails or not. -/
def carryOut (root : Scope) (assignment : Assignment) : Result Variable × Scope :=
  (change assignment).run.run root

/-- The assigned variable with the changed tree. -/
def assign (root : Scope) (assignment : Assignment) : Result (Variable × Scope) :=
  match root.carryOut assignment with
  | (.ok entry, changed) => .ok (entry, changed)
  | (.error failure, _) => .error failure

end Scope

end ParaLang
