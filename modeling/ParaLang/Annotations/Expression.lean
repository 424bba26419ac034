import ParaLang.Annotations.State

/-! # Literals and extracted expressions

A right-hand side with an operator or a parenthesis is extracted as one `expression` token.  Where
a parenthesis touches an operand or another parenthesis, a multiplication is inserted. -/

namespace ParaLang.Annotations

/-- The type of a literal of the given kind. -/
def literalType : TokenKind → String
  | .int => "int"
  | .float => "float"
  | .string => "string"
  | .bool => "bool"
  | _ => "null"

def literalValue (place : NumberedToken) : Result Value :=
  match place.kind with
  | .int | .float =>
    match Value.ofNumberLiteral place.literal with
    | .ok value => .ok value
    | .error (.outOfRange literal) => refuse (.literalOverflow literal) place
    | .error .malformed => .error (.fault .malformedNumber)
  | .string => .ok (.ofStringLiteral place.literal)
  | .bool => .ok (.ofBoolLiteral place.literal)
  | _ => .ok .null

def valueToken (place : NumberedToken) : Result AnnotatedToken := do
  let value ← literalValue place
  return { place.inRole .value with value := some value, type := some (literalType place.kind) }

/-- A token of an expression in its role. -/
def expressionItem (place : NumberedToken) : Result AnnotatedToken :=
  if place.kind.isLiteral then valueToken place
  else if place.kind.isOperator then .ok (place.inRole .operator)
  else match place.kind with
    | .identifier => .ok (place.inRole .lookup)
    | .leftParen => .ok (place.inRole .leftParen)
    | .rightParen => .ok (place.inRole .rightParen)
    | .arrow => .ok (place.inRole .arrow)
    | _ => refuse (.notInExpression place.literal) place

def isOperand (role : Role) : Bool :=
  role == .value || role == .lookup

/-- Whether a multiplication belongs between two neighbours. -/
def juxtaposed (left right : Role) : Bool :=
  if right = .leftParen then isOperand left || left == .rightParen
  else left == .rightParen && isOperand right

/-- The inserted multiplication sign, at the place of the token it precedes. -/
def insertedStar (right : AnnotatedToken) : AnnotatedToken :=
  { right with
    role := .operator, literal := "*", kind := .star, value := none, type := none
    synthetic := true }

/-- The tokens of an expression; `previous` is the role of the one before them. -/
def expressionItems (previous : Option Role) : List NumberedToken → Result (List AnnotatedToken)
  | [] => .ok []
  | place :: rest => do
    let item ← expressionItem place
    let later ← expressionItems item.role rest
    if previous.any (juxtaposed · item.role) then return insertedStar item :: item :: later
    else return item :: later

/-- The `expression` token of a run that starts at `first`. -/
def expressionToken (first : NumberedToken) (rest : List NumberedToken) :
    Result AnnotatedToken := do
  let items ← expressionItems none (first :: rest)
  return { first.inRole .expression with
    literal := " ".intercalate ((first :: rest).map NumberedToken.literal)
    expression := some items }

end ParaLang.Annotations
