import ParaLang.Decimal.Shortest
import ParaLang.Table
import ParaLang.Text

/-! # Plain data

The trees of scalars, arrays and objects in which the state of a program is exchanged.  Members of
an object keep the order in which they were written. -/

namespace ParaLang

inductive Plain where
  | null
  | bool (value : Bool)
  | int (value : Int)
  | float (value : Float)
  | string (value : String)
  | array (items : List Plain)
  | object (members : List (String × Plain))
deriving Inhabited

namespace Plain

/-- Whether the datum stands for a set flag: nothing, zero and whatever is empty do not. -/
def isSet : Plain → Bool
  | null => false
  | bool value => value
  | int value => value != 0
  | float value => value != 0.0
  | string value => value != ""
  | array items => !items.isEmpty
  | object members => !members.isEmpty

mutual

/-- The one-line form in messages: capitalised constants and quoted text. -/
def shown : Plain → String
  | null => "None"
  | bool value => if value then "True" else "False"
  | int value => toString value
  | float value => Decimal.text value
  | string value => Text.quote value
  | array items => "[" ++ ", ".intercalate (shownItems items) ++ "]"
  | object members => "\x7b" ++ ", ".intercalate (shownMembers members) ++ "\x7d"

def shownItems : List Plain → List String
  | [] => []
  | item :: rest => item.shown :: shownItems rest

def shownMembers : List (String × Plain) → List String
  | [] => []
  | (name, member) :: rest => (Text.quote name ++ ": " ++ member.shown) :: shownMembers rest

end

/-- The text of a datum that stands by itself: a text is not quoted. -/
def text : Plain → String
  | string value => value
  | other => other.shown

/-! ## Agreement

Two data agree when they stand for the same thing.  Numbers agree by their exact value, whether
they are integers or floats, and a truth value counts as one or zero.  Objects agree whatever the
order of their members.  An undefined number agrees with nothing, not even with itself. -/

/-- Whether a float is exactly the given integer. -/
def isInteger (number : Float) (value : Int) : Bool :=
  match Binary64.ofFloat number with
  | .finite negative mantissa exponent =>
    let (top, bottom) := Binary64.scaled 2 mantissa 1 (-exponent)
    (if negative then -(top : Int) else top) == value * bottom
  | _ => false

def counted : Plain → Plain
  | bool value => int (if value then 1 else 0)
  | other => other

def scalarsAgree (left right : Plain) : Bool :=
  match left.counted, right.counted with
  | null, null => true
  | int left, int right => left == right
  | float left, float right => left == right
  | int value, float number | float number, int value => isInteger number value
  | string left, string right => left == right
  | _, _ => false

mutual

def agrees : Plain → Plain → Bool
  | array items, array others => itemsAgree items others
  | object members, object others =>
    members.length == others.length && membersAgree members others
  | left, right => scalarsAgree left right

def itemsAgree : List Plain → List Plain → Bool
  | [], [] => true
  | item :: rest, other :: others => item.agrees other && itemsAgree rest others
  | _, _ => false

/-- Whether each member agrees with the one of its name among the others. -/
def membersAgree : List (String × Plain) → List (String × Plain) → Bool
  | [], _ => true
  | (name, member) :: rest, others =>
    (match Table.get? others name with
      | some other => member.agrees other
      | none => false) && membersAgree rest others

end

/-! ## JSON text

One member or item a line, each level indented by two more blanks; only control characters, quotes
and backslashes are escaped in strings. -/

def escapeJson (character : Char) : String :=
  match character with
  | '"' => "\\\""
  | '\\' => "\\\\"
  | '\n' => "\\n"
  | '\r' => "\\r"
  | '\t' => "\\t"
  | '\x08' => "\\b"
  | '\x0c' => "\\f"
  | _ =>
    if character.toNat < 0x20 then "\\u" ++ Text.hexadecimal 4 character.toNat
    else character.toString

def quoteJson (text : String) : String :=
  "\"" ++ String.join (text.toList.map escapeJson) ++ "\""

def floatJson (number : Float) : String :=
  match Binary64.ofFloat number with
  | .notANumber => "NaN"
  | .infinite negative => if negative then "-Infinity" else "Infinity"
  | .finite _ _ _ => Decimal.text number

/-- A line break and the indentation of a level. -/
def lineBreak (level : Nat) : String :=
  "\n" ++ String.ofList (List.replicate (2 * level) ' ')

/-- Items between brackets, one a line; an empty list stays on the line. -/
def bracketed (level : Nat) (opening closing : String) (items : List String) : String :=
  if items.isEmpty then opening ++ closing
  else opening ++ lineBreak (level + 1) ++ ("," ++ lineBreak (level + 1)).intercalate items ++
    lineBreak level ++ closing

mutual

def json (level : Nat) : Plain → String
  | null => "null"
  | bool value => if value then "true" else "false"
  | int value => toString value
  | float value => floatJson value
  | string value => quoteJson value
  | array items => bracketed level "[" "]" (jsonItems (level + 1) items)
  | object members => bracketed level "\x7b" "\x7d" (jsonMembers (level + 1) members)

def jsonItems (level : Nat) : List Plain → List String
  | [] => []
  | item :: rest => item.json level :: jsonItems level rest

def jsonMembers (level : Nat) : List (String × Plain) → List String
  | [] => []
  | (name, member) :: rest =>
    (quoteJson name ++ ": " ++ member.json level) :: jsonMembers level rest

end

end Plain

end ParaLang
