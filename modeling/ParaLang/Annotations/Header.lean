import ParaLang.Annotations.State

/-! # Blocks

A block opens with a header, `name -> {` or `name -> : type {`, whose name may be a path. -/

namespace ParaLang.Annotations

/-- The number of tokens in front of the brace, if the list starts with the header of a block. -/
def headerLength? : List NumberedToken → Result (Option Nat)
  | name :: arrow :: after :: rest =>
    if name.kind = .identifier ∧ arrow.kind = .arrow then
      match after.kind with
      | .leftBrace => .ok (some 2)
      | .colon =>
        match rest with
        | [] => pastTheEnd
        | type :: rest =>
          if type.kind = .typeName then
            match rest with
            | [] => pastTheEnd
            | brace :: _ => .ok (if brace.kind = .leftBrace then some 4 else none)
          else .ok none
      | .identifier => do return (← headerLength? (after :: rest)).map (· + 2)
      | _ => .ok none
    else .ok none
  | [name, arrow] =>
    if name.kind = .identifier ∧ arrow.kind = .arrow then pastTheEnd else .ok none
  | [name] => if name.kind = .identifier then pastTheEnd else .ok none
  | [] => pastTheEnd

/-- The names of a path that ends at the front of the passed tokens, innermost first. -/
def pathNames (name : NumberedToken) : List NumberedToken → List String
  | arrow :: outer :: passed =>
    if arrow.kind = .arrow ∧ outer.kind = .identifier then
      name.literal :: pathNames outer passed
    else [name.literal]
  | _ => [name.literal]

/-- The header of the block whose brace follows the passed tokens: its names, innermost first,
and the type of its members. -/
def headerBefore? : List NumberedToken → Option (List String × Option String)
  | type :: colon :: arrow :: name :: passed =>
    if type.kind = .typeName ∧ colon.kind = .colon ∧ arrow.kind = .arrow ∧
        name.kind = .identifier then
      some (pathNames name passed, some type.literal)
    else if type.kind = .arrow ∧ colon.kind = .identifier then
      some (pathNames colon (arrow :: name :: passed), none)
    else none
  | arrow :: name :: passed =>
    if arrow.kind = .arrow ∧ name.kind = .identifier then some (pathNames name passed, none)
    else none
  | _ => none

/-- The frames of a header, innermost first. -/
def framesOf (memberType : Option String) : List String → List Frame
  | [] => []
  | name :: outer => ⟨name, memberType, true⟩ :: outer.map fun name => ⟨name, none, false⟩

def openBlock (state : State) (passed : List NumberedToken) (brace : NumberedToken) :
    Result State :=
  match headerBefore? passed with
  | none => refuse .headlessBlock brace
  | some (names, memberType) =>
    let written := { brace.inRole .blockOpen with
      literal := formatPath names.reverse, type := memberType }
    .ok ({ state with frames := framesOf memberType names ++ state.frames }.write
      written).newStatement

/-- Leaves the innermost block, with all the segments of its header. -/
def closeBlock (state : State) (brace : NumberedToken) : Result State :=
  match state.frames with
  | [] => refuse .unopenedBlock brace
  | _ :: outer =>
    .ok ({ state with frames := outer.dropWhile (!·.ownsBrace) }.write
      (brace.inRole .blockClose)).newStatement

end ParaLang.Annotations
