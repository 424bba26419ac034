import ParaLang.AnnotatedToken
import ParaLang.Failure

/-! # The state of annotation

Annotation walks a list of tokens once.  It keeps what it has written so far, the blocks that are
open, and three facts about the current statement: whether its `=` has been seen, whether it has a
name that can still take modifiers, and whether it has a type. -/

namespace ParaLang.Annotations

/-- A token with its place in its logical line. -/
structure NumberedToken where
  token : Token
  number : Nat
deriving DecidableEq, Repr

namespace NumberedToken

def kind (numbered : NumberedToken) : TokenKind :=
  numbered.token.kind

def literal (numbered : NumberedToken) : String :=
  numbered.token.literal

/-- The token as it stands, in the given role. -/
def inRole (numbered : NumberedToken) (role : Role) : AnnotatedToken where
  role := role
  literal := numbered.token.literal
  kind := numbered.token.kind
  line := numbered.token.line
  number := numbered.number

/-- Counts the tokens of each logical line from one; `count` tokens of the first line come before
the list. -/
def ofTokens (count : Nat) : List Token → List NumberedToken
  | [] => []
  | token :: rest =>
    ⟨token, count + 1⟩ :: ofTokens (if token.kind = .newline then 0 else count + 1) rest

end NumberedToken

/-- Fails at a token. -/
def refuse {α : Type} (cause : Cause) (place : NumberedToken) : Result α :=
  fail cause place.token.line (place.number : Int)

/-- Fails because a look ahead found the list at its end. -/
def pastTheEnd {α : Type} : Result α :=
  .error (.fault .pastTheEnd)

/-- One segment of the path of an open block.  The last segment of a header owns the brace and may
give the members a type; the closing brace also closes the segments before it. -/
structure Frame where
  name : String
  memberType : Option String := none
  ownsBrace : Bool := true
deriving DecidableEq, Repr

structure State where
  /-- What has been written, newest first. -/
  output : List AnnotatedToken := []
  /-- The open blocks, innermost first. -/
  frames : List Frame := []
  assigned : Bool := false
  named : Bool := false
  typed : Bool := false

namespace State

def write (state : State) (token : AnnotatedToken) : State :=
  { state with output := token :: state.output }

/-- Forgets the facts about the statement that has ended. -/
def newStatement (state : State) : State :=
  { state with assigned := false, named := false, typed := false }

/-- Whether a name written here is the first segment of its path. -/
def startsPath (state : State) : Bool :=
  match state.output with
  | [] => true
  | token :: _ => token.role != .arrow

/-- The name of the statement is there and can still be modified. -/
def modifiable (state : State) : Bool :=
  state.named && !state.assigned

/-- The type that the innermost typed block gives to its members. -/
def memberType? (state : State) : Option String :=
  state.frames.findSome? Frame.memberType

/-- The path of the open blocks, outermost first, as tokens in front of `place`. -/
def blockPath (state : State) (place : NumberedToken) : List AnnotatedToken :=
  state.frames.reverse.flatMap fun frame =>
    [{ place.inRole .group with literal := frame.name, kind := .identifier, synthetic := true },
      { place.inRole .arrow with literal := "->", kind := .arrow, synthetic := true }]

/-- Writes the block path. -/
def writeBlockPath (state : State) (place : NumberedToken) : State :=
  { state with output := (state.blockPath place).reverse ++ state.output }

end State

end ParaLang.Annotations
