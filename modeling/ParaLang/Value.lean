import ParaLang.Decimal.Shortest
import ParaLang.Decimal.Reading
import ParaLang.Plain

/-! # Values

A value is a 32-bit integer, a binary64 number, a text, a truth value or the null value.  Only
arithmetic and literals enforce the integer range; a value that comes from outside may hold any
integer. -/

namespace ParaLang

inductive Value where
  | int (value : Int)
  | float (value : Float)
  | string (value : String)
  | bool (value : Bool)
  | null
deriving DecidableEq, Inhabited

namespace Value

/-- Whether an integer fits into 32 bits. -/
def inRange (value : Int) : Bool :=
  -2147483648 ≤ value && value ≤ 2147483647

/-- The name of a value's type, as it is written after a colon. -/
def typeName : Value → String
  | int _ => "int"
  | float _ => "float"
  | string _ => "string"
  | bool _ => "bool"
  | null => "null"

def isNumeric : Value → Bool
  | int _ | float _ => true
  | _ => false

/-! ## Literals -/

/-- What a backslash followed by this character stands for; other pairs are kept as they are. -/
def escapeMeaning? : Char → Option Char
  | 'n' => some '\n'
  | 't' => some '\t'
  | '"' => some '"'
  | '\\' => some '\\'
  | _ => none

/-- Decodes the escapes in the text between the quotes of a literal. -/
def unescape : List Char → List Char
  | '\\' :: character :: rest =>
    match escapeMeaning? character with
    | some meaning => meaning :: unescape rest
    | none => '\\' :: character :: unescape rest
  | character :: rest => character :: unescape rest
  | [] => []

/-- The text that a string literal denotes; its first and last characters are its quotes. -/
def ofStringLiteral (literal : String) : Value :=
  string (String.ofList (unescape (literal.toList.drop 1).dropLast))

def ofBoolLiteral (literal : String) : Value :=
  bool (literal == "true")

/-- Why a text is no numeric literal.  An integer of too many digits to be read is malformed too. -/
inductive NumberFailure where
  | malformed
  | outOfRange (literal : String)
deriving DecidableEq

/-- A numeral with a point is a float, any other an integer, which has to fit into 32 bits. -/
def ofNumberLiteral (literal : String) : Except NumberFailure Value :=
  if literal.toList.contains '.' then
    match Decimal.readFloat? literal with
    | some value => .ok (float value)
    | none => .error .malformed
  else
    match Decimal.readInt? literal with
    | some value => if inRange value then .ok (int value) else .error (.outOfRange literal)
    | none => .error .malformed

/-! ## Text -/

def escapeCharacter : Char → List Char
  | '\\' => ['\\', '\\']
  | '"' => ['\\', '"']
  | '\n' => ['\\', 'n']
  | '\t' => ['\\', 't']
  | character => [character]

def escape (text : String) : String :=
  String.ofList (text.toList.flatMap escapeCharacter)

/-- A value as inspect lines, dumps and flattened programs show it.  Integers are shown whatever
their number of digits: those of a program fit into 32 bits, so `Decimal.maxDigits` does not
matter here. -/
def display : Value → String
  | int value => toString value
  | float value => Decimal.text value
  | string value => "\"" ++ escape value ++ "\""
  | bool value => if value then "TRUE" else "FALSE"
  | null => "(nothing)"

/-- A value with its kind, as token listings show it. -/
def shown : Value → String
  | int value => "Int(" ++ toString value ++ ")"
  | float value => "Float(" ++ Decimal.text value ++ ")"
  | string value => "Str(" ++ Text.quote value ++ ")"
  | bool value => if value then "Bool(True)" else "Bool(False)"
  | null => "Null"

/-! ## Plain form and equality -/

def toPlain : Value → Plain
  | int value => .int value
  | float value => .float value
  | string value => .string value
  | bool value => .bool value
  | null => .null

/-- Equality of numbers as numbers: the two zeros agree, and an undefined number agrees with
nothing.  Values of different types always differ. -/
def agrees : Value → Value → Bool
  | float left, float right => left == right
  | left, right => left == right

end Value

end ParaLang
