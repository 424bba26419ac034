import ParaLang.AnnotatedToken
import ParaLang.Failure

/-! # Paths in annotated tokens

A path is a run of segments linked by arrows.  It can be read forward from its first segment or
backward from the token after its last one, at the front of a list or at an index. -/

namespace ParaLang

def AnnotatedToken.isSegment (token : AnnotatedToken) : Bool :=
  token.role.isSegment

/-- The segments that continue a path after its first one. -/
def pathTail : List AnnotatedToken → List String
  | arrow :: segment :: rest =>
    if arrow.role = .arrow ∧ segment.isSegment then segment.literal :: pathTail rest else []
  | _ => []

/-- The path at the front of a list of tokens; empty if there is none. -/
def pathAt : List AnnotatedToken → List String
  | [] => []
  | token :: rest => if token.isSegment then token.literal :: pathTail rest else []

/-- The path that ends at the front of a list of tokens in reverse order, outermost segment first.
Read in reverse a path is a path again. -/
def pathBefore (passed : List AnnotatedToken) : List String :=
  (pathAt passed).reverse

/-- The number of tokens of a path with the given number of segments. -/
def pathWidth (path : List String) : Nat :=
  2 * path.length - 1

/-! ## Reading at an index -/

/-- The token at an index; a negative index counts from the end. -/
def tokenAt (tokens : List AnnotatedToken) (index : Int) : Result AnnotatedToken :=
  let place := if index < 0 then tokens.length + index else index
  if place < 0 then .error (.fault .pastTheEnd)
  else match tokens[place.toNat]? with
    | some token => .ok token
    | none => .error (.fault .pastTheEnd)

/-- The segments that are linked one after another from an index on, and the index just past
them. -/
def linksFrom (tokens : List AnnotatedToken) (index : Int) : Result (List String × Int) := do
  if index + 1 < tokens.length then
    let arrow ← tokenAt tokens index
    let segment ← tokenAt tokens (index + 1)
    if arrow.role = .arrow ∧ segment.isSegment then
      let (names, finish) ← linksFrom tokens (index + 2)
      return (segment.literal :: names, finish)
    else return ([], index)
  else return ([], index)
termination_by (tokens.length - index).toNat

/-- The path that starts at an index, and the index just past it. -/
def readPathForward (tokens : List AnnotatedToken) (start : Int) :
    Result (List String × Int) := do
  if tokens.length ≤ start then fail .noName
  else
    let first ← tokenAt tokens start
    if first.isSegment then
      let (names, finish) ← linksFrom tokens (start + 1)
      return (first.literal :: names, finish)
    else fail .noName first.line first.number

/-- Puts the segments that are linked one before another in front of an index before a path. -/
def linksBefore (tokens : List AnnotatedToken) (index : Nat) (path : List String) :
    List String :=
  match index with
  | front + 2 =>
    match tokens[front + 1]?, tokens[front]? with
    | some arrow, some segment =>
      if arrow.role = .arrow ∧ segment.isSegment then
        linksBefore tokens front (segment.literal :: path)
      else path
    | _, _ => path
  | _ => path

/-- The path that ends just before an index; empty if there is none. -/
def readPathBackward (tokens : List AnnotatedToken) (index : Int) : List String :=
  if index ≤ 0 ∨ tokens.length < index then []
  else
    let last := index.toNat - 1
    match tokens[last]? with
    | some segment =>
      if segment.isSegment then linksBefore tokens last [segment.literal] else []
    | none => []

end ParaLang
