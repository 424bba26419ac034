import ParaLang.Annotations
import ParaLang.Expression.Evaluation
import ParaLang.Path
import ParaLang.Token.Lexer

/-! # Interpretation

A program is run by walking its annotated tokens once.  Each `=` takes its target from the tokens
before it and its value from the tokens after it; an expression is evaluated when the walk reaches
it.  Each `?` reports what the path or literal before it holds at that point. -/

namespace ParaLang

/-- What a `?` reports: the path or literal before it, with its type and value at that point. -/
structure Inspection where
  line : Int
  token : Int
  subject : Option String := none
  type : String := "undefined"
  value : String := "(nothing)"
deriving DecidableEq, Repr

/-- Without a subject there is nothing to report but the place. -/
def Inspection.text (inspection : Inspection) : String :=
  let place := "[" ++ toString inspection.line ++ ":" ++ toString inspection.token ++ "] "
  match inspection.subject with
  | none => place ++ "undefined"
  | some subject => place ++ subject ++ " : " ++ inspection.type ++ " = " ++ inspection.value

/-- Where an assignment writes, with the flags and the place of the name. -/
structure Target where
  path : List String
  type : Option String := none
  mutable : Bool := false
  temp : Bool := false
  line : Int
  number : Int
deriving DecidableEq, Repr

namespace Interpretation

/-- The state between two tokens. -/
structure State where
  root : Scope := {}
  inspections : List Inspection := []
  /-- The target of an `=` whose expression comes next. -/
  pending : Option Target := none
  /-- The value of the latest expression that has been assigned. -/
  result : Option Value := none

/-! ## Targets -/

/-- The target whose name ends the passed tokens, which are given nearest first. -/
def targetEndingAt (type : Option String) (assign : AnnotatedToken) :
    List AnnotatedToken → Result Target
  | [] => fail .noIdentifier assign.line assign.number
  | name :: passed =>
    if name.role = .identifier then
      .ok ⟨pathBefore (name :: passed), type, name.mutable, name.temp, name.line, name.number⟩
    else fail .noIdentifier assign.line assign.number

/-- The target of an `=`: the path before it, with an optional type in between. -/
def targetBefore (assign : AnnotatedToken) (passed : List AnnotatedToken) : Result Target :=
  match passed with
  | [] => targetEndingAt none assign []
  | last :: earlier =>
    if last.role = .type then targetEndingAt last.type assign earlier
    else targetEndingAt none assign passed

/-! ## References -/

/-- The variable that a path refers to in the statement of a target.  A path that starts with the
scopes of the target and leads nowhere is tried again without them, from the root. -/
def resolveReference (verbosity : Nat) (root : Scope) (target : Target) (path : List String)
    (place : AnnotatedToken) : Traced Variable := do
  Traced.note verbosity 2 ("resolve " ++ formatPath path ++ " for " ++ formatPath target.path)
  match root.resolve path place.line place.number with
  | .ok found => return found
  | .error failure =>
    let groups := target.path.dropLast
    if !failure.isNotFound ∨ groups = [] ∨ path.length ≤ groups.length ∨
        path.take groups.length ≠ groups then
      Traced.ofResult (.error failure)
    else do
      let shorter := path.drop groups.length
      Traced.note verbosity 2 ("fallback " ++ formatPath path ++ " -> " ++ formatPath shorter)
      root.resolve shorter place.line place.number

/-- The value of the literal or reference after an `=`; a literal may lack one. -/
def valueAfter (verbosity : Nat) (root : Scope) (target : Target) (assign : AnnotatedToken)
    (rest : List AnnotatedToken) : Traced (Option Value) :=
  match rest with
  | [] => Traced.ofResult (fail .noValue assign.line assign.number (some target.path))
  | token :: _ =>
    if token.role = .value then return token.value
    else if token.isSegment then do
      return some (← resolveReference verbosity root target (pathAt rest) token).value
    else Traced.ofResult (fail .noValue token.line token.number (some target.path))

/-! ## Steps -/

def commit (verbosity : Nat) (state : State) (target : Target) (value : Option Value) :
    Traced State := do
  let (entry, root) ← state.root.assign
    { path := target.path, value := value, type := target.type, mutable := target.mutable
      temp := target.temp, line := target.line, token := target.number }
  Traced.note verbosity 1 ("assign " ++ formatPath target.path ++ " : " ++ entry.type.text ++
    " = " ++ entry.value.display ++ (if entry.mutable then " [muta]" else "") ++
    (if entry.temp then " [temp]" else ""))
  return { state with root := root }

/-- The report on a value without a name. -/
def inspectValue (place : AnnotatedToken) (value : Value) : Inspection :=
  ⟨place.line, place.number, some "value", value.typeName, value.display⟩

/-- The report on the path that ends the passed tokens. -/
def inspectPath (root : Scope) (place : AnnotatedToken) (passed : List AnnotatedToken) :
    Inspection :=
  let path := pathBefore passed
  if path.isEmpty then ⟨place.line, place.number, none, "undefined", "(nothing)"⟩
  else match root.find? path with
    | none => ⟨place.line, place.number, some (formatPath path), "undefined", "(nothing)"⟩
    | some found =>
      ⟨place.line, place.number, some (formatPath path), found.type.text, found.value.display⟩

def inspect (state : State) (place : AnnotatedToken) (passed : List AnnotatedToken) :
    Result Inspection :=
  match passed with
  | [] => .ok (inspectPath state.root place passed)
  | last :: _ =>
    if last.role = .value then do return inspectValue place (← Value.require last.value)
    else match last.role, state.result with
      | .expression, some value => .ok (inspectValue place value)
      | _, _ => .ok (inspectPath state.root place passed)

/-- Handles one token between the passed tokens, nearest first, and the rest. -/
def step (verbosity : Nat) (state : State) (passed : List AnnotatedToken)
    (token : AnnotatedToken) (rest : List AnnotatedToken) : Traced State :=
  match token.role with
  | .assign => do
    let target ← targetBefore token passed
    -- an expression commits by itself, with the target that waits for it
    if rest.head?.any (·.role == .expression) then return { state with pending := some target }
    else commit verbosity state target (← valueAfter verbosity state.root target token rest)
  | .expression =>
    match state.pending with
    | none => Traced.ofResult (fail .unassignedExpression token.line token.number)
    | some target =>
      match token.expression with
      | none => Traced.ofResult (.error (.fault .missingExpression))
      | some run => do
        let value ← Expression.evaluate verbosity state.root run
        commit verbosity { state with pending := none, result := value } target value
  | .inspect => do
    return { state with inspections := state.inspections ++ [← inspect state token passed] }
  | _ => return state

def walk (verbosity : Nat) (state : State) (passed : List AnnotatedToken) :
    List AnnotatedToken → Traced State
  | [] => return state
  | token :: rest => do
    walk verbosity (← step verbosity state passed token rest) (token :: passed) rest

end Interpretation

/-- What a successful run leaves behind. -/
structure Outcome where
  root : Scope := {}
  inspections : List Inspection := []

def Outcome.lines (outcome : Outcome) : List String :=
  outcome.inspections.map Inspection.text

def interpret (verbosity : Nat) (tokens : List AnnotatedToken) : Traced Outcome := do
  Traced.note verbosity 3 ("tokens: " ++ " ".intercalate
    (tokens.map fun token => token.role.name ++ "(" ++ token.literal ++ ")"))
  let state ← Interpretation.walk verbosity {} [] tokens
  return ⟨state.root, state.inspections⟩

/-- The annotated tokens of a program text. -/
def annotateSource (source : String) : Result (List AnnotatedToken) := do
  annotate (← Token.tokenize source)

def runProgram (verbosity : Nat) (source : String) : Traced Outcome := do
  interpret verbosity (← annotateSource source)

end ParaLang
