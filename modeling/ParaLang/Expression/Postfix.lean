import ParaLang.AnnotatedToken
import ParaLang.Expression.Arithmetic

/-! # Postfix order

The tokens of an expression are rearranged so that each operator follows its operands.  Operators
wait on a stack until one that binds less tightly, a closing parenthesis or the end comes along.
From tight to loose: `^` to the right, the sign `-`, then `*`, `/` and `%`, then `+` and `-`. -/

namespace ParaLang

def AnnotatedToken.place (token : AnnotatedToken) : Place :=
  ⟨token.line, token.number⟩

namespace Expression

/-- The symbol of the sign, which differs from that of subtraction. -/
def negationSymbol : String := "u-"

/-- How tightly an operator binds. -/
def rank? : String → Option Nat
  | "+" | "-" => some 1
  | "*" | "/" | "%" => some 2
  | "u-" => some 3
  | "^" => some 4
  | _ => none

def rank (symbol : String) : Result Nat :=
  match rank? symbol with
  | some rank => .ok rank
  | none => .error (.fault .unrankedOperator)

/-- Whether operators of this symbol group to the right. -/
def groupsRight (symbol : String) : Bool :=
  symbol == "^" || symbol == negationSymbol

/-- Whether a sign, and not a binary operator, stands after a token of this role. -/
def expectsOperand : Option Role → Bool
  | none | some .operator | some .leftParen => true
  | _ => false

def negation (token : AnnotatedToken) : AnnotatedToken where
  role := .operator
  literal := negationSymbol
  kind := token.kind
  line := token.line
  number := token.number

/-- The waiting operators that are applied before one of the given symbol, and the stack below
them. -/
def release (symbol : String) :
    List AnnotatedToken → Result (List AnnotatedToken × List AnnotatedToken)
  | [] => .ok ([], [])
  | top :: below =>
    if top.role = .operator then do
      let waiting ← rank top.literal
      let own ← rank symbol
      if own < waiting ∨ (waiting = own ∧ !groupsRight symbol) then
        let (released, stack) ← release symbol below
        return (top :: released, stack)
      else return ([], top :: below)
    else .ok ([], top :: below)

/-- The operators that still wait at the end. -/
def unwind : List AnnotatedToken → Result (List AnnotatedToken)
  | [] => .ok []
  | top :: below =>
    if top.role = .leftParen then top.place.refuse .unmatchedOpening
    else do return top :: (← unwind below)

/-- The postfix order of the remaining tokens, after a token of role `previous` and with the given
operators and parentheses waiting. -/
def arrange (previous : Option Role) (stack : List AnnotatedToken) :
    List AnnotatedToken → Result (List AnnotatedToken)
  | [] => unwind stack
  | token :: rest =>
    match token.role with
    | .value | .lookup => do return token :: (← arrange token.role stack rest)
    | .operator =>
      if expectsOperand previous ∧ token.literal = "+" then arrange token.role stack rest
      else if expectsOperand previous ∧ token.literal = "-" then
        arrange token.role (negation token :: stack) rest
      else do
        let (released, below) ← release token.literal stack
        return released ++ (← arrange token.role (token :: below) rest)
    | .leftParen => arrange token.role (token :: stack) rest
    | .rightParen =>
      match stack.dropWhile (·.role != .leftParen) with
      | [] => token.place.refuse .unmatchedClosing
      | _ :: below => do
        return stack.takeWhile (·.role != .leftParen) ++ (← arrange token.role below rest)
    | .arrow => token.place.refuse .arrowInExpression
    | _ => token.place.refuse (.strayInExpression token.literal)

def toPostfix (tokens : List AnnotatedToken) : Result (List AnnotatedToken) :=
  arrange none [] tokens

end Expression

end ParaLang
