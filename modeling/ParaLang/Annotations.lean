import ParaLang.Annotations.Header
import ParaLang.Annotations.Expression

/-! # Annotation

Every token gets the role it plays.  Names get the path of the blocks around them, modifiers
become flags of the name they follow, a colon with its type becomes one `type` token, and
right-hand sides with arithmetic become `expression` tokens.  Each check looks at the tokens next
to it, at the last written token and at the facts in the state, and the first one that fails ends
the work. -/

namespace ParaLang.Annotations

/-! ## Names -/

/-- Tokens after which a statement starts. -/
def endsStatement : TokenKind → Bool
  | .newline | .leftBrace | .rightBrace => true
  | _ => false

/-- The role of a name, given what follows it. -/
def nameRole (state : State) : List NumberedToken → Result Role
  | [] => pastTheEnd
  | next :: after =>
    if next.kind = .arrow then
      match after with
      | [] => pastTheEnd
      | name :: _ =>
        if name.kind = .identifier then .ok .group else refuse .arrowWithoutName next
    else .ok (if state.assigned then .lookup else .identifier)

/-- Writes a name, with the path of the open blocks if it starts a path. -/
def writeName (state : State) (place : NumberedToken) (role : Role) : State :=
  let state := if state.startsPath then state.writeBlockPath place else state
  { state.write (place.inRole role) with named := state.named || role == .identifier }

/-- Handles a name; the second result counts the tokens of a block header that are passed over up
to its brace. -/
def readName (state : State) (passed : List NumberedToken) (place : NumberedToken)
    (rest : List NumberedToken) : Result (State × Nat) :=
  let previous := passed.head?.map NumberedToken.kind
  if previous = some .identifier ∨ (state.modifiable ∧ state.startsPath) then
    refuse (.adjacentName place.literal) place
  else if previous.any TokenKind.isLiteral then
    refuse (.nameAfterValue place.literal) place
  else do
    let header ←
      if previous.all endsStatement && !state.assigned then headerLength? (place :: rest)
      else pure none
    match header with
    | some length => return (state, length - 1)
    | none => return (writeName state place (← nameRole state rest), 0)

def readArrow (state : State) (place : NumberedToken) : Result State :=
  match state.output with
  | [] => refuse .arrowWithoutGroup place
  | last :: _ =>
    if last.role = .group then .ok (state.write (place.inRole .arrow))
    else refuse .arrowWithoutGroup place

/-! ## Modifiers and types -/

/-- A name with one more modifier. -/
def withModifier (kind : TokenKind) (token : AnnotatedToken) : AnnotatedToken :=
  match kind with
  | .muta => { token with mutable := true }
  | .temp => { token with temp := true }
  | .const => { token with const := true }
  | _ => token

/-- Sets a modifier of the latest identifier among the written tokens. -/
def modifyLatest (modifier : NumberedToken) : List AnnotatedToken → Result (List AnnotatedToken)
  | [] => pastTheEnd
  | token :: earlier =>
    if token.role = .identifier then
      let modified := withModifier modifier.kind token
      if modified.mutable ∧ modified.const then
        refuse (.conflictingModifiers token.literal) modifier
      else .ok (modified :: earlier)
    else do return token :: (← modifyLatest modifier earlier)

def readModifier (state : State) (place : NumberedToken) : Result State :=
  if state.modifiable then do
    return { state with output := ← modifyLatest place state.output }
  else refuse (.misplacedModifier place.literal) place

/-- Reads the modifiers and the type after a colon: the state with the modifiers set, the type and
the number of tokens read. -/
def typeClause (state : State) (type : Option String) :
    List NumberedToken → Result (State × Option String × Nat)
  | [] => pastTheEnd
  | place :: rest =>
    if place.kind = .typeName then
      if type.isSome then refuse .secondType place
      else do
        let (state, type, count) ← typeClause state (some place.literal) rest
        return (state, type, count + 1)
    else if place.kind.isModifier then do
      let (state, type, count) ← typeClause (← readModifier state place) type rest
      return (state, type, count + 1)
    else .ok (state, type, 0)

/-- A `type` token in the place of the token that introduces it. -/
def typeToken (place : NumberedToken) (type : String) : AnnotatedToken :=
  { place.inRole .type with literal := type, kind := .typeName, type := some type }

def readColon (state : State) (place : NumberedToken) (rest : List NumberedToken) :
    Result (State × Nat) :=
  if state.modifiable ∧ !state.typed then do
    let (state, type, count) ← typeClause state none rest
    match type with
    | none => refuse .missingType place
    | some type => return ({ state.write (typeToken place type) with typed := true }, count)
  else refuse .misplacedColon place

/-! ## Values and assignments -/

def readLiteral (state : State) (passed : List NumberedToken) (place : NumberedToken) :
    Result State :=
  let previous := passed.head?.map NumberedToken.kind
  if previous = some .identifier ∨ previous.any TokenKind.isLiteral ∨ state.modifiable then
    refuse (.misplacedValue place.literal) place
  else do return state.write (← valueToken place)

/-- Tokens that end a right-hand side. -/
def endsRightHandSide : TokenKind → Bool
  | .newline | .endOfInput | .rightBrace | .question => true
  | _ => false

def rightHandSide : List NumberedToken → Result (List NumberedToken)
  | [] => pastTheEnd
  | place :: rest =>
    if endsRightHandSide place.kind then .ok []
    else if place.kind = .equals then refuse .secondAssignment place
    else do return place :: (← rightHandSide rest)

/-- The tokens that make a right-hand side an expression. -/
def isArithmetic (kind : TokenKind) : Bool :=
  kind.isOperator || kind == .leftParen || kind == .rightParen

/-- Gives an untyped member of a typed block the type of the block. -/
def inheritType (state : State) (place : NumberedToken) : State :=
  match state.memberType? with
  | some type =>
    if state.named ∧ !state.typed then
      { state.write { typeToken place type with synthetic := true } with typed := true }
    else state
  | none => state

/-- Handles an `=`.  An expression is read as a whole; any other right-hand side is left to the
steps that follow. -/
def readAssignment (state : State) (place : NumberedToken) (rest : List NumberedToken) :
    Result (State × Nat) :=
  if state.assigned then refuse .secondAssignment place
  else
    let state := { inheritType state place with assigned := true }.write (place.inRole .assign)
    do
      match ← rightHandSide rest with
      | [] => refuse .nothingAssigned place
      | first :: more =>
        if (first :: more).any (isArithmetic ·.kind) then
          return (state.write (← expressionToken first more), more.length + 1)
        else return (state, 0)

/-! ## The walk -/

/-- Handles one token; the second result counts the tokens after it that have been read too. -/
def step (state : State) (passed : List NumberedToken) (place : NumberedToken)
    (rest : List NumberedToken) : Result (State × Nat) :=
  match place.kind with
  | .newline => .ok ((state.write (place.inRole .newline)).newStatement, 0)
  | .identifier => readName state passed place rest
  | .arrow => return (← readArrow state place, 0)
  | .colon => readColon state place rest
  | .muta | .temp | .const => return (← readModifier state place, 0)
  | .equals => readAssignment state place rest
  | .int | .float | .string | .bool | .null => return (← readLiteral state passed place, 0)
  | .question =>
    .ok ({ state.write (place.inRole .inspect) with named := false, typed := false }, 0)
  | .leftBrace => return (← openBlock state passed place, 0)
  | .rightBrace => return (← closeBlock state place, 0)
  | _ => refuse (.misplacedToken place.literal) place

/-- The end of the input, which no block may reach. -/
def finish (state : State) (place : NumberedToken) : Result (List AnnotatedToken) :=
  match state.frames with
  | [] => .ok (place.inRole .endOfInput :: state.output).reverse
  | frame :: _ => refuse (.unclosedBlock frame.name) place

/-- Annotates what follows the passed tokens, up to the first end of input.  The next `read` tokens
have been handled already and are only passed over. -/
def walk (state : State) (passed : List NumberedToken) (read : Nat) :
    List NumberedToken → Result (List AnnotatedToken)
  | [] => pastTheEnd
  | place :: rest =>
    match read with
    | read + 1 => walk state (place :: passed) read rest
    | 0 =>
      if place.kind = .endOfInput then finish state place
      else do
        let (state, count) ← step state passed place rest
        walk state (place :: passed) count rest

theorem walk_read (state : State) (passed : List NumberedToken) (read : Nat)
    (tokens : List NumberedToken) :
    walk state passed read tokens =
      walk state ((tokens.take read).reverse ++ passed) 0 (tokens.drop read) := by
  induction tokens generalizing passed read with
  | nil => simp [walk]
  | cons place rest inductionHypothesis =>
    cases read with
    | zero => simp
    | succ read => simp [walk, inductionHypothesis (place :: passed) read]

end Annotations

def annotate (tokens : List Token) : Result (List AnnotatedToken) :=
  if tokens.getLast?.any (·.kind = .endOfInput) then
    Annotations.walk {} [] 0 (Annotations.NumberedToken.ofTokens 0 tokens)
  else fail .missingEnd

end ParaLang
