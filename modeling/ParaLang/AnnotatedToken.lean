import ParaLang.Token
import ParaLang.Value

/-! # Annotated tokens

An annotated token says which part it plays in its statement.  A name carries its modifiers, a
literal its value, and an extracted expression the run of tokens it is made of. -/

namespace ParaLang

/-- The part a token plays.  A stream need not come from annotation, so roles outside the language
are told apart by their name. -/
inductive Role where
  | group
  | identifier
  | lookup
  | type
  | value
  | operator
  | leftParen
  | rightParen
  | arrow
  | assign
  | inspect
  | expression
  | blockOpen
  | blockClose
  | newline
  | endOfInput
  | other (name : String)
deriving DecidableEq, Repr, Inhabited

namespace Role

def name : Role → String
  | group => "GROUP"
  | identifier => "IDENTIFIER"
  | lookup => "LOOKUP"
  | type => "TYPE"
  | value => "VALUE"
  | operator => "OPERATOR"
  | leftParen => "LPAREN"
  | rightParen => "RPAREN"
  | arrow => "ARROW"
  | assign => "VALUE_ASSIGN"
  | inspect => "INSPECT"
  | expression => "EXPRESSION"
  | blockOpen => "BLOCK_OPEN"
  | blockClose => "BLOCK_CLOSE"
  | newline => "NEWLINE"
  | endOfInput => "EOF"
  | other name => name

/-- The roles that have a meaning in the language. -/
def known : List Role :=
  [group, identifier, lookup, type, value, operator, leftParen, rightParen, arrow, assign, inspect,
    expression, blockOpen, blockClose, newline, endOfInput]

def ofName (text : String) : Role :=
  (known.find? fun role => role.name == text).getD (other text)

/-- The roles of the segments of a path. -/
def isSegment : Role → Bool
  | group | identifier | lookup => true
  | _ => false

/-- The roles that end a statement. -/
def isBoundary : Role → Bool
  | newline | endOfInput | blockOpen | blockClose => true
  | _ => false

end Role

structure AnnotatedToken where
  role : Role
  literal : String
  kind : TokenKind
  line : Int
  /-- The place in the logical line, counted from one. -/
  number : Int
  type : Option String := none
  value : Option Value := none
  mutable : Bool := false
  temp : Bool := false
  const : Bool := false
  /-- Inserted by annotation, with the place of the token before which it was inserted. -/
  synthetic : Bool := false
  expression : Option (List AnnotatedToken) := none
deriving Inhabited

namespace AnnotatedToken

/-- The modifiers of a name in the order in which listings show them. -/
def modifiers (token : AnnotatedToken) : List String :=
  (if token.mutable then ["muta"] else []) ++ (if token.temp then ["temp"] else []) ++
    (if token.const then ["const"] else [])

/-- A token with its value or type and its place, between angle brackets. -/
def shown (token : AnnotatedToken) : String :=
  let extra := match token.value, token.type with
    | some value, _ => " " ++ value.shown
    | none, some type => " :" ++ type
    | none, none => ""
  "<" ++ token.role.name ++ " " ++ Text.quote token.literal ++ extra ++ " @" ++
    toString token.line ++ ":" ++ toString token.number ++ ">"

/-- The line that lists a token: place, role, text, modifiers and type. -/
def listing (token : AnnotatedToken) : String :=
  let type := match token.type with
    | some type => if type = "" then "" else " :" ++ type
    | none => ""
  "[" ++ toString token.line ++ ":" ++ toString token.number ++ "] " ++ token.role.name ++ " " ++
    Text.quote token.literal ++ String.join (token.modifiers.map (" " ++ ·)) ++ type

end AnnotatedToken

end ParaLang
