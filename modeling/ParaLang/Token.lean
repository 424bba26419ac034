import ParaLang.Text

/-! # Tokens

The pieces into which a program is cut, each with its kind, its text and its place. -/

namespace ParaLang

/-- The kind of a token.  A list of tokens need not come from the lexer, so kinds outside the
language are told apart by their name. -/
inductive TokenKind where
  | identifier
  | arrow
  | colon
  | equals
  | question
  | plus
  | minus
  | star
  | slash
  | percent
  | caret
  | leftParen
  | rightParen
  | leftBrace
  | rightBrace
  | typeName
  | int
  | float
  | string
  | bool
  | null
  | muta
  | temp
  | const
  | newline
  | endOfInput
  | other (name : String)
deriving DecidableEq, Repr, Inhabited

namespace TokenKind

def name : TokenKind → String
  | identifier => "IDENT"
  | arrow => "ARROW"
  | colon => "TYPE_ASSIGN"
  | equals => "VALUE_ASSIGN"
  | question => "INSPECT"
  | plus => "PLUS"
  | minus => "MINUS"
  | star => "STAR"
  | slash => "SLASH"
  | percent => "PERCENT"
  | caret => "POWER"
  | leftParen => "LPAREN"
  | rightParen => "RPAREN"
  | leftBrace => "LBRACE"
  | rightBrace => "RBRACE"
  | typeName => "TYPE"
  | int => "INT"
  | float => "FLOAT"
  | string => "STRING"
  | bool => "BOOL"
  | null => "NULL"
  | muta => "MUTA"
  | temp => "TEMP"
  | const => "CONST"
  | newline => "NEWLINE"
  | endOfInput => "EOF"
  | other name => name

/-- The kinds that have a meaning in the language. -/
def known : List TokenKind :=
  [identifier, arrow, colon, equals, question, plus, minus, star, slash, percent, caret,
    leftParen, rightParen, leftBrace, rightBrace, typeName, int, float, string, bool, null,
    muta, temp, const, newline, endOfInput]

def ofName (text : String) : TokenKind :=
  (known.find? fun kind => kind.name == text).getD (other text)

def isOperator : TokenKind → Bool
  | plus | minus | star | slash | percent | caret => true
  | _ => false

def isLiteral : TokenKind → Bool
  | int | float | string | bool | null => true
  | _ => false

def isModifier : TokenKind → Bool
  | muta | temp | const => true
  | _ => false

end TokenKind

/-- The place of a token that no text produced may be any pair of integers. -/
structure Token where
  kind : TokenKind
  literal : String
  line : Int
  column : Int
deriving DecidableEq, Repr

/-- A token with its kind, text and place, on one line. -/
def Token.shown (token : Token) : String :=
  "Token(" ++ token.kind.name ++ ", " ++ Text.quote token.literal ++ ", " ++
    toString token.line ++ ":" ++ toString token.column ++ ")"

end ParaLang
