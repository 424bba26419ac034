import ParaLang.Interpretation

/-! # Statements

Annotated tokens fall into statements, which line ends and braces separate.  The flat form writes
one statement a line; as every path carries its blocks, no braces are needed.  The baked form is
the flat form with each reference replaced by the value it has in a tree; statements that define a
temporary variable are left out. -/

namespace ParaLang

/-! ## The flat form -/

namespace Statement

/-- The non-empty statements of a list of tokens; `current` holds the tokens of the one at hand,
newest first. -/
def collect (current : List AnnotatedToken) : List AnnotatedToken → List (List AnnotatedToken)
  | [] => if current.isEmpty then [] else [current.reverse]
  | token :: rest =>
    if token.role.isBoundary then
      if current.isEmpty then collect [] rest else current.reverse :: collect [] rest
    else collect (token :: current) rest

/-- A literal as a value shows it, a name with its modifiers, a type after its colon, and any other
token as it was written; an arrow is written with its group. -/
def renderToken (token : AnnotatedToken) : Except Fault String :=
  match token.role with
  | .group => .ok (token.literal ++ "-> ")
  | .arrow => .ok ""
  | .type => .ok (":" ++ token.literal ++ " ")
  | .value =>
    match token.value with
    | some value => .ok (value.display ++ " ")
    | none => .error (.notAValue .null)
  | .identifier => .ok (" ".intercalate (token.literal :: token.modifiers) ++ " ")
  | .expression =>
    match token.expression with
    | some items => .ok (" ".intercalate (items.map AnnotatedToken.literal) ++ " ")
    | none => .error .missingExpression
  | _ => .ok (token.literal ++ " ")

/-- The line of a statement, without blanks at its end. -/
def render (statement : List AnnotatedToken) : Except Fault String := do
  return Text.trimEnd (String.join (← statement.mapM renderToken))

end Statement

/-- The statements of a list of tokens. -/
def statements (tokens : List AnnotatedToken) : List (List AnnotatedToken) :=
  Statement.collect [] tokens

/-- The flat form of a program. -/
def renderFlat (tokens : List AnnotatedToken) : Except Fault String := do
  return Text.unlines (← (statements tokens).mapM Statement.render)

/-! ## The baked form -/

namespace Statement

/-- The name that a statement defines, with its path; both are missing if it defines none. -/
def definition? (statement : List AnnotatedToken) : Option (AnnotatedToken × List String) :=
  let before := statement.takeWhile (·.role != .identifier)
  (statement.drop before.length).head?.map fun name =>
    (name, pathBefore (name :: before.reverse))

/-- The variable a reference finds: at its path, or else at the part of the path that goes on from
the scopes of the statement. -/
def reference? (root : Scope) (groups path : List String) : Option Variable :=
  match root.find? path with
  | some found => some found
  | none =>
    if groups ≠ [] ∧ groups.length < path.length ∧ path.take groups.length = groups then
      root.find? (path.drop groups.length)
    else none

/-- The items of an expression, with the values of the names that are in the root scope. -/
def bakeItem (root : Scope) (item : AnnotatedToken) : String :=
  if item.role = .lookup then
    match Table.get? root.entries item.literal with
    | some found => found.value.display
    | none => item.literal
  else item.literal

def bakeToken (root : Scope) (token : AnnotatedToken) : Except Fault String :=
  if token.role = .expression then
    match token.expression with
    | some items => .ok (" ".intercalate (items.map (bakeItem root)) ++ " ")
    | none => .error .missingExpression
  else renderToken token

/-- The texts of the tokens of a statement whose target lies in the given scopes.  The next `read`
tokens belong to a reference that has been replaced already. -/
def bakeTokens (root : Scope) (groups : List String) (afterAssign : Bool) (read : Nat) :
    List AnnotatedToken → Except Fault (List String)
  | [] => .ok []
  | token :: rest =>
    match read with
    | read + 1 => bakeTokens root groups false read rest
    | 0 =>
      let path := pathAt (token :: rest)
      match if afterAssign && token.isSegment then reference? root groups path else none with
      | some found => do
        let later ← bakeTokens root groups false (pathWidth path - 1) rest
        return (found.value.display ++ " ") :: later
      | none => do
        let text ← bakeToken root token
        return text :: (← bakeTokens root groups (token.role == .assign) 0 rest)

/-- Whether a statement defines a variable that is temporary, by its modifiers or in the tree. -/
def definesTemporary (root : Scope) (statement : List AnnotatedToken) : Bool :=
  match definition? statement with
  | none => false
  | some (name, path) => name.temp || (root.find? path).any (·.temp)

def bake (root : Scope) (statement : List AnnotatedToken) : Except Fault String := do
  let groups := ((definition? statement).map fun (_, path) => path.dropLast).getD []
  return Text.trimEnd (String.join (← bakeTokens root groups false 0 statement))

end Statement

/-- The baked form of a program, with the values of a tree. -/
def renderBaked (tokens : List AnnotatedToken) (root : Scope) : Except Fault String := do
  let kept := (statements tokens).filter fun statement => !Statement.definesTemporary root statement
  return Text.unlines (← kept.mapM (Statement.bake root))

end ParaLang
