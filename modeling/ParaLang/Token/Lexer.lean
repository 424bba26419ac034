import ParaLang.Token
import ParaLang.Token.Lexeme

/-! # From text to tokens

Comments and blanks are dropped, keywords are told apart from names, and any number of line ends
between two tokens makes one `newline` token, never a leading one.  The list closes with an
`endOfInput` token at the end of the last token that is no `newline`. -/

namespace ParaLang

def TokenKind.ofWord : String → TokenKind
  | "int" | "float" | "string" | "bool" => .typeName
  | "true" | "false" => .bool
  | "null" => .null
  | "muta" => .muta
  | "temp" => .temp
  | "const" => .const
  | _ => .identifier

def TokenKind.ofSymbol : Char → TokenKind
  | ':' => .colon
  | '=' => .equals
  | '?' => .question
  | '+' => .plus
  | '-' => .minus
  | '*' => .star
  | '/' => .slash
  | '%' => .percent
  | '^' => .caret
  | '(' => .leftParen
  | ')' => .rightParen
  | '\x7b' => .leftBrace
  | '\x7d' => .rightBrace
  | character => .other character.toString

/-- The kind of token a lexeme makes; comments and blanks make none. -/
def Lexeme.kind? (lexeme : Lexeme) : Option TokenKind :=
  match lexeme.terminal with
  | .name => some (.ofWord (String.ofList lexeme.text))
  | .string => some .string
  | .number => some (if lexeme.text.contains '.' then .float else .int)
  | .comment | .blanks => none
  | .lineEnds => some .newline
  | .arrow => some .arrow
  | .symbol character => some (.ofSymbol character)

namespace Token

/-- `broken` tells that a line end would add nothing here: at the start and after a line end. -/
def ofLexemes (broken : Bool) (finish : Position) : List Lexeme → List Token
  | [] => [⟨.endOfInput, "", finish.line, finish.column⟩]
  | lexeme :: rest =>
    match lexeme.kind? with
    | none => ofLexemes broken finish rest
    | some .newline =>
      if broken then ofLexemes true finish rest
      else ⟨.newline, "\n", lexeme.position.line, lexeme.position.column⟩ ::
        ofLexemes true finish rest
    | some kind =>
      ⟨kind, String.ofList lexeme.text, lexeme.position.line, lexeme.position.column⟩ ::
        ofLexemes false (lexeme.position.after lexeme.text) rest

def tokenize (source : String) : Result (List Token) := do
  return ofLexemes true .start (← Lexeme.cut .start source.toList)

end Token

end ParaLang
