import ParaLang.Text

/-! # Command line arguments

Options may stand before and after the program, may be shortened as long as only one option is
meant, and may carry their value after an equals sign.  Two dashes end the options. -/

namespace ParaLang.CommandLine

/-- What is made of a program instead of just running it. -/
inductive Mode where
  | flat
  | baked
  | dump
  | state
  | tokens
deriving DecidableEq, Repr

inductive Switch where
  | help
  | verbose
  | mode (mode : Mode)
deriving DecidableEq, Repr

def switches : List (String × Switch) :=
  [("-h", .help), ("--help", .help), ("-v", .verbose), ("--emit-flat", .mode .flat),
    ("--emit-baked", .mode .baked), ("--dump", .mode .dump), ("--emit-state", .mode .state),
    ("--tokens", .mode .tokens)]

/-- One argument. -/
inductive Word where
  | operand (text : String)
  | separator
  | switch (switch : Switch) (value : Option String)
  /-- Options of one letter, joined after one dash. -/
  | letters (letters : List Char)
  | ambiguous
  | unknown
deriving DecidableEq, Repr

namespace Word

/-- The text before the first equals sign and the text after it, if there is one. -/
def splitValue (text : String) : String × Option String :=
  let name := text.toList.takeWhile (· != '=')
  match text.toList.drop name.length with
  | [] => (text, none)
  | _ :: value => (String.ofList name, some (String.ofList value))

/-- Digits with at most one point among them and at least one digit at the end. -/
def isUnsignedNumber (text : List Char) : Bool :=
  let isDigit (character : Char) : Bool := (Text.digitValue? character).isSome
  match text.dropWhile isDigit with
  | [] => !text.isEmpty
  | '.' :: fraction => !fraction.isEmpty && fraction.all isDigit
  | _ => false

/-- A number after a dash; a line feed may follow it. -/
def isNegativeNumber (text : String) : Bool :=
  match text.toList with
  | '-' :: number =>
    isUnsignedNumber (if number.getLast? = some '\n' then number.dropLast else number)
  | _ => false

/-- The options that a long name may stand for. -/
def candidates (name : String) : List Switch :=
  (switches.filter fun (option, _) => name.toList.isPrefixOf option.toList).map Prod.snd

/-- An argument that starts with a dash and is no option: a negative number or a text with a blank
is an operand all the same. -/
def unmatched (text : String) : Word :=
  if isNegativeNumber text ∨ text.toList.contains ' ' then operand text else unknown

/-- Joined letters.  An equals sign after the first one is passed over if anything follows it. -/
def ofLetters (first : Char) : List Char → Word
  | '=' :: second :: rest => letters (first :: second :: rest)
  | rest => letters (first :: rest)

def ofText (text : String) : Word :=
  match text.toList with
  | '-' :: '-' :: _ =>
    let (name, value) := splitValue text
    match switches.lookup name with
    | some found => switch found value
    | none =>
      match candidates name with
      | [] => unmatched text
      | [found] => switch found value
      | _ => ambiguous
  | '-' :: letter :: rest =>
    if letter = 'v' ∨ letter = 'h' then ofLetters letter rest else unmatched text
  | _ => operand text

/-- The arguments as words: every one after the first separator is an operand. -/
def ofTexts : List String → List Word
  | [] => []
  | text :: rest =>
    if text = "--" then separator :: rest.map operand else ofText text :: ofTexts rest

end Word

structure Arguments where
  verbosity : Nat := 0
  mode : Option (Mode × String) := none
  program : Option String := none
deriving DecidableEq, Repr

inductive Request where
  | run (arguments : Arguments)
  | help
  | invalid
deriving DecidableEq, Repr

/-- Sets the mode; a different one may not be set already.  A separator is no file name. -/
def Arguments.setMode? (arguments : Arguments) (mode : Mode) (file : String) :
    Option Arguments :=
  let file := if file = "--" then "" else file
  if arguments.mode.all (·.1 = mode) then some { arguments with mode := some (mode, file) }
  else none

/-- Reads joined letters: each `v` raises the verbosity. -/
def readLetters (arguments : Arguments) (letters : List Char) : Request :=
  if !letters.all fun letter => letter == 'v' || letter == 'h' then .invalid
  else if letters.contains 'h' then .help
  else .run { arguments with verbosity := arguments.verbosity + letters.length }

/-- Reads the words.  `afterProgram` tells that the last one was the program, and `surplus` that
there has been a word too many, which makes the arguments invalid unless they ask for help. -/
def readWords (afterProgram surplus : Bool) (arguments : Arguments) : List Word → Request
  | [] => if surplus then .invalid else .run arguments
  | .operand text :: rest =>
    if arguments.program.isSome then readWords false true arguments rest
    else readWords true surplus { arguments with program := some text } rest
  | .separator :: rest =>
    readWords false (surplus || (arguments.program.isSome && !afterProgram)) arguments rest
  | .unknown :: rest => readWords false true arguments rest
  | .letters letters :: rest =>
    match readLetters arguments letters with
    | .run arguments => readWords false surplus arguments rest
    | other => other
  | .switch .help none :: _ => .help
  | .switch (.mode mode) (some file) :: rest =>
    match arguments.setMode? mode file with
    | some arguments => readWords false surplus arguments rest
    | none => .invalid
  | .switch (.mode mode) none :: .operand file :: rest =>
    match arguments.setMode? mode file with
    | some arguments => readWords false surplus arguments rest
    | none => .invalid
  | _ => .invalid

/-- What the arguments ask for. -/
def readArguments (texts : List String) : Request :=
  let words := Word.ofTexts texts
  -- an ambiguous option is refused before any other is carried out
  if words.contains .ambiguous then .invalid else readWords false false {} words

/-- The mode and the file it is applied to.  A mode without a file name does not count. -/
def Arguments.task (arguments : Arguments) : Option Mode × String :=
  match arguments.mode with
  | some (mode, file) =>
    if file = "" then (none, arguments.program.getD "") else (some mode, file)
  | none => (none, arguments.program.getD "")

end ParaLang.CommandLine
