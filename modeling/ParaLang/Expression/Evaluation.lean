import ParaLang.Expression.Postfix
import ParaLang.Scope
import ParaLang.Failure

/-! # Evaluation

An expression in postfix order is evaluated on a stack of values.  Operands are literals or names
of the root scope.  A literal that carries no value is an operand all the same; only an operator
that is applied to it misses the value. -/

namespace ParaLang.Expression

/-- The operands that wait for an operator, latest first. -/
abbrev Operands := List (Option Value)

/-- Handles one token of a postfix expression. -/
def push (root : Scope) (stack : Operands) (token : AnnotatedToken) : Result Operands :=
  match token.role with
  | .value => .ok (token.value :: stack)
  | .lookup =>
    match Table.get? root.entries token.literal with
    | some found => .ok (some found.value :: stack)
    | none =>
      fail (.rootVariableNotFound token.literal) token.line token.number (some [token.literal])
  | _ =>
    if token.literal = negationSymbol then
      match stack with
      | operand :: below => do
        return some (← Arithmetic.negate (← Value.require operand) token.place) :: below
      | [] => token.place.refuse (.missingOperand "-")
    else
      match stack with
      | right :: left :: below => do
        let left ← Value.require left
        let right ← Value.require right
        return some (← Arithmetic.apply token.literal left right token.place) :: below
      | _ => token.place.refuse (.missingOperand token.literal)

def pushAll (root : Scope) (stack : Operands) : List AnnotatedToken → Result Operands
  | [] => .ok stack
  | token :: rest => do pushAll root (← push root stack token) rest

/-- The value of a postfix expression: the only one on the stack at its end. -/
def evaluatePostfix (root : Scope) (postfixed : List AnnotatedToken) : Result (Option Value) := do
  match ← pushAll root [] postfixed with
  | [value] => return value
  | [] =>
    match postfixed.head? with
    | some first => first.place.refuse .noResult
    | none => fail .noResult
  | _ =>
    match postfixed.getLast? with
    | some last => last.place.refuse .severalResults
    | none => .error (.fault .pastTheEnd)

def evaluate (verbosity : Nat) (root : Scope) (tokens : List AnnotatedToken) :
    Traced (Option Value) := do
  let postfixed ← toPostfix tokens
  Traced.note verbosity 3
    ("postfix: " ++ " ".intercalate (postfixed.map AnnotatedToken.literal))
  evaluatePostfix root postfixed

end ParaLang.Expression
