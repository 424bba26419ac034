import ParaLang.Value

/-! # Failures and traced runs

A program fails with a `Diagnostic`: a cause, and the place and path it concerns.  The cause alone
determines the name and the wording of the message.  Requests that make no sense whatever the
program says, such as decoding a state that is no object, fail with a `Fault`, which has no
place.  A traced run carries the messages that it has noted before it ended or failed. -/

namespace ParaLang

/-- The part of the work in which a diagnostic arises. -/
inductive Stage where
  | lexical
  | structural
  | resolution
  | evaluation
  | mutability
deriving DecidableEq, Repr

/-- What is wrong with a program. -/
inductive Cause where
  | unexpectedCharacter (character : Char)
  | missingEnd
  | unclosedBlock (name : String)
  | unopenedBlock
  | headlessBlock
  | arrowWithoutName
  | arrowWithoutGroup
  | adjacentName (name : String)
  | nameAfterValue (name : String)
  | misplacedValue (literal : String)
  | misplacedToken (literal : String)
  | misplacedColon
  | secondType
  | missingType
  | misplacedModifier (literal : String)
  | conflictingModifiers (name : String)
  | literalOverflow (literal : String)
  | secondAssignment
  | nothingAssigned
  | notInExpression (literal : String)
  | noTarget
  | noIdentifier
  | immutableVariable
  | typeMismatch (expected actual : String)
  | absentValue
  | emptyPath
  | noName
  | scopeNotFound (name : String)
  | variableNotFound (name : String)
  | rootVariableNotFound (name : String)
  | noValue
  | unassignedExpression
  | unmatchedClosing
  | unmatchedOpening
  | arrowInExpression
  | strayInExpression (literal : String)
  | noResult
  | severalResults
  | missingOperand (operator : String)
  | cannotNegate (type : String)
  | unsupportedOperands (operator left right : String)
  | unknownOperator (operator : String)
  | integerOverflow (result : Int)
  | powerOverflow (base exponent : Int)
  | divisionByZero
  | moduloByZero
  | zeroToNegativePower
  | noRealPower (base exponent : Float)
  | powerOutOfRange (base exponent : Float)
deriving DecidableEq

namespace Cause

def stage : Cause → Stage
  | unexpectedCharacter _ => .lexical
  | missingEnd | unclosedBlock _ | unopenedBlock | headlessBlock | arrowWithoutName
  | arrowWithoutGroup | adjacentName _ | nameAfterValue _ | misplacedValue _ | misplacedToken _
  | misplacedColon | secondType | missingType | misplacedModifier _ | conflictingModifiers _
  | literalOverflow _ | secondAssignment | nothingAssigned | notInExpression _ => .structural
  | immutableVariable => .mutability
  | noTarget | noIdentifier | typeMismatch _ _ | absentValue | emptyPath | noName | scopeNotFound _
  | variableNotFound _ | rootVariableNotFound _ | noValue => .resolution
  | unassignedExpression | unmatchedClosing | unmatchedOpening | arrowInExpression
  | strayInExpression _ | noResult | severalResults | missingOperand _ | cannotNegate _
  | unsupportedOperands _ _ _ | unknownOperator _ | integerOverflow _ | powerOverflow _ _
  | divisionByZero | moduloByZero | zeroToNegativePower | noRealPower _ _
  | powerOutOfRange _ _ => .evaluation

/-- The name of the violated rule. -/
def name : Cause → String
  | unexpectedCharacter _ => "UnexpectedCharacter"
  | missingEnd => "MissingEOF"
  | unclosedBlock _ | unopenedBlock | headlessBlock | arrowWithoutName | arrowWithoutGroup =>
    "MalformedGroup"
  | adjacentName _ => "DoubleIdentifier"
  | nameAfterValue _ | misplacedValue _ | misplacedToken _ | misplacedColon | secondType
  | notInExpression _ => "UnexpectedToken"
  | missingType => "MissingType"
  | misplacedModifier _ => "MisplacedModifier"
  | conflictingModifiers _ => "ConflictingModifiers"
  | literalOverflow _ | integerOverflow _ | powerOverflow _ _ => "IntegerOverflow"
  | secondAssignment => "MultipleAssignments"
  | nothingAssigned => "EmptyExpression"
  | noTarget | noIdentifier => "InvalidAssignment"
  | immutableVariable => "ImmutableVariable"
  | typeMismatch _ _ | absentValue => "TypeMismatch"
  | emptyPath | noName => "InvalidLookupPath"
  | scopeNotFound _ => "ScopeNotFound"
  | variableNotFound _ | rootVariableNotFound _ => "VariableNotFoundInScope"
  | noValue => "NoValueFoundAfterAssignment"
  | unassignedExpression | unmatchedClosing | unmatchedOpening | arrowInExpression
  | strayInExpression _ | noResult | severalResults | cannotNegate _ | unsupportedOperands _ _ _
  | unknownOperator _ | noRealPower _ _ | powerOutOfRange _ _ => "InvalidExpression"
  | missingOperand _ => "NotEnoughOperands"
  | divisionByZero | zeroToNegativePower => "DivisionByZero"
  | moduloByZero => "ModuloByZero"

def message : Cause → String
  | unexpectedCharacter character => "unexpected character " ++ Text.quote character.toString
  | missingEnd => "token stream must end with EOF"
  | unclosedBlock name => "block '" ++ name ++ "' is never closed"
  | unopenedBlock => "'\x7d' without an open block"
  | headlessBlock => "'\x7b' must follow 'name ->' or 'name -> : type'"
  | arrowWithoutName => "'->' must be followed by a name"
  | arrowWithoutGroup => "'->' must follow a group name"
  | adjacentName name => "'" ++ name ++ "' follows another name without an operator"
  | nameAfterValue name => "unexpected name '" ++ name ++ "' after a value"
  | misplacedValue literal => "unexpected value " ++ literal
  | misplacedToken literal => "unexpected " ++ Text.quote literal
  | misplacedColon => "unexpected ':'"
  | secondType => "a statement takes a single type"
  | missingType => "':' must be followed by a type name"
  | misplacedModifier literal => "'" ++ literal ++ "' must follow the name it modifies"
  | conflictingModifiers name => "'" ++ name ++ "' cannot be both muta and const"
  | literalOverflow literal => "integer literal " ++ literal ++ " does not fit in 32 bits"
  | secondAssignment => "a statement takes a single '='"
  | nothingAssigned => "nothing to assign after '='"
  | notInExpression literal => Text.quote literal ++ " cannot appear in an expression"
  | noTarget => "nothing to assign to"
  | noIdentifier => "no identifier before '='"
  | immutableVariable => "cannot reassign an immutable variable"
  | typeMismatch expected actual => "expected " ++ expected ++ ", got " ++ actual
  | absentValue => "not a Para value: " ++ Plain.null.shown
  | emptyPath => "empty lookup path"
  | noName => "expected a name to look up"
  | scopeNotFound name => "scope '" ++ name ++ "' not found"
  | variableNotFound name => "variable '" ++ name ++ "' not found in scope"
  | rootVariableNotFound name => "variable '" ++ name ++ "' not found in root scope"
  | noValue => "no value after '='"
  | unassignedExpression => "expression without an assignment"
  | unmatchedClosing => "unbalanced ')'"
  | unmatchedOpening => "unbalanced '('"
  | arrowInExpression => "'->' is not allowed in an expression"
  | strayInExpression literal => "unexpected " ++ Text.quote literal ++ " in expression"
  | noResult => "expression has no value"
  | severalResults => "expression leaves more than one value"
  | missingOperand operator => "not enough operands for '" ++ operator ++ "'"
  | cannotNegate type => "cannot negate a " ++ type
  | unsupportedOperands operator left right =>
    "unsupported " ++ operator ++ " for " ++ left ++ " and " ++ right
  | unknownOperator operator => "unknown operator " ++ operator
  | integerOverflow result => "result " ++ toString result ++ " does not fit in 32 bits"
  | powerOverflow base exponent =>
    toString base ++ " ^ " ++ toString exponent ++ " does not fit in 32 bits"
  | divisionByZero => "division by zero"
  | moduloByZero => "modulo by zero"
  | zeroToNegativePower => "zero raised to a negative power"
  | noRealPower base exponent =>
    Decimal.text base ++ " ^ " ++ Decimal.text exponent ++ " has no real result"
  | powerOutOfRange base exponent =>
    Decimal.text base ++ " ^ " ++ Decimal.text exponent ++ " is out of range"

end Cause

/-- The segments of a path joined by arrows. -/
def formatPath (path : List String) : String :=
  "-> ".intercalate path

/-- A named message about a place; the token number is a column in lexical reports. -/
structure Report where
  name : String
  message : String
  line : Option Int := none
  token : Option Int := none
  path : Option (List String) := none
deriving DecidableEq, Repr

namespace Report

def location (report : Report) : String :=
  match report.line, report.token with
  | none, _ => ""
  | some line, none => "[" ++ toString line ++ "]"
  | some line, some token => "[" ++ toString line ++ ":" ++ toString token ++ "]"

/-- Location, name, path and message, each only when it is there. -/
def text (report : Report) : String :=
  let location := report.location
  let path := report.path.getD []
  " ".intercalate ((if location = "" then [] else [location]) ++ [report.name ++ ":"] ++
    (if path.isEmpty then [] else [formatPath path ++ ":"]) ++ [report.message])

end Report

structure Diagnostic where
  cause : Cause
  line : Option Int := none
  token : Option Int := none
  path : Option (List String) := none
deriving DecidableEq

def Diagnostic.report (diagnostic : Diagnostic) : Report where
  name := diagnostic.cause.name
  message := diagnostic.cause.message
  line := diagnostic.line
  token := diagnostic.token
  path := diagnostic.path

def Diagnostic.text (diagnostic : Diagnostic) : String :=
  diagnostic.report.text

/-- A request that no program can make right. -/
inductive Fault where
  | mismatch (expected actual : String)
  | notAValue (datum : Plain)
  | notConvertible (shape : String)
  | literalOutOfRange (literal : String)
  | malformedNumber
  | tooLargeForFloat
  | missingType
  | entryIsNoObject
  | noObject
  | unrankedOperator
  | missingExpression
  | pastTheEnd

/-- The wording of the faults that have one. -/
def Fault.message? : Fault → Option String
  | .mismatch expected actual => some ("expected " ++ expected ++ ", got " ++ actual)
  | .notAValue datum => some ("not a Para value: " ++ datum.shown)
  | .notConvertible shape => some ("cannot convert " ++ shape ++ " to a Para value")
  | .literalOutOfRange literal =>
    some ("integer literal " ++ literal ++ " does not fit in 32 bits")
  | _ => none

inductive Failure where
  | diagnostic (diagnostic : Diagnostic)
  | fault (fault : Fault)

/-- Whether a failure tells that a path leads to no variable. -/
def Failure.isNotFound : Failure → Bool
  | .diagnostic ⟨cause, _, _, _⟩ =>
    cause.stage == .resolution &&
      (cause.name == "ScopeNotFound" || cause.name == "VariableNotFoundInScope")
  | .fault _ => false

abbrev Result (α : Type) := Except Failure α

/-- Fails with a diagnostic. -/
def fail {α : Type} (cause : Cause) (line token : Option Int := none)
    (path : Option (List String) := none) : Result α :=
  .error (.diagnostic ⟨cause, line, token, path⟩)

/-- A value that has to be there. -/
def Value.require : Option Value → Result Value
  | some value => .ok value
  | none => .error (.fault (.notAValue .null))

/-! ## Traced runs

A run that may fail, together with the messages it notes on the way, whether it fails or not.
Each message has a level, and a run of some verbosity notes the messages up to that level. -/

structure Message where
  level : Nat
  text : String
deriving DecidableEq, Repr

structure Traced (α : Type) where
  messages : List Message
  outcome : Result α

namespace Traced

variable {α β : Type}

def pure (value : α) : Traced α :=
  ⟨[], .ok value⟩

/-- Runs on with the result, if there is one, and collects the messages in order. -/
def bind (first : Traced α) (next : α → Traced β) : Traced β :=
  match first.outcome with
  | .ok value => ⟨first.messages ++ (next value).messages, (next value).outcome⟩
  | .error failure => ⟨first.messages, .error failure⟩

instance : Monad Traced where
  pure := pure
  bind := bind

/-- A run that notes nothing. -/
def ofResult (result : Result α) : Traced α :=
  ⟨[], result⟩

instance : MonadLift (Except Failure) Traced where
  monadLift := ofResult

/-- Notes a message if the verbosity reaches its level. -/
def note (verbosity level : Nat) (text : String) : Traced Unit :=
  ⟨if level ≤ verbosity then [⟨level, text⟩] else [], .ok ()⟩

end Traced

end ParaLang
