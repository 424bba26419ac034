import ParaLang.Failure

/-! # Lexemes

A program text is cut from left to right.  At each place `scan` recognises one lexeme: a name, a
string, a number, a comment, a run of line ends, a run of blanks or a symbol.  The lexemes tile
the text: nothing between them is lost, and a place where none is recognised is an error. -/

namespace ParaLang

structure Position where
  line : Nat
  column : Nat
deriving DecidableEq, Repr

namespace Position

def start : Position := ⟨1, 1⟩

/-- A line feed opens a new line; any other character takes one column. -/
def next (position : Position) (character : Char) : Position :=
  if character = '\n' then ⟨position.line + 1, 1⟩ else ⟨position.line, position.column + 1⟩

def after (position : Position) (text : List Char) : Position :=
  text.foldl next position

end Position

inductive Terminal where
  | name
  | string
  | number
  | comment
  | lineEnds
  | blanks
  | arrow
  | symbol (character : Char)
deriving DecidableEq, Repr

namespace Lexeme

/-! ## Character classes -/

def startsName (character : Char) : Bool :=
  character.isAlpha || character == '_'

def continuesName (character : Char) : Bool :=
  character.isAlphanum || character == '_'

def isBlank (character : Char) : Bool :=
  character == ' ' || character == '\t' || character == '\r'

def isSymbol (character : Char) : Bool :=
  [':', '=', '?', '+', '-', '*', '/', '%', '^', '(', ')', '\x7b', '\x7d'].contains character

/-! ## Recognisers

Each one splits a text into the part it recognises and the rest. -/

/-- The rest of a string literal, up to its closing quote.  A backslash takes the character after
it along, and neither of them may be a line feed. -/
def closeString : List Char → Option (List Char × List Char)
  | [] => none
  | '"' :: rest => some (['"'], rest)
  | '\n' :: _ => none
  | ['\\'] => none
  | '\\' :: character :: rest =>
    if character = '\n' then none
    else (closeString rest).map fun (text, rest) => ('\\' :: character :: text, rest)
  | character :: rest => (closeString rest).map fun (text, rest) => (character :: text, rest)

/-- The rest of a block comment, up to the first end mark. -/
def closeComment : List Char → Option (List Char × List Char)
  | [] => none
  | '*' :: '/' :: rest => some (['*', '/'], rest)
  | character :: rest => (closeComment rest).map fun (text, rest) => (character :: text, rest)

/-- A run of line feeds, each of which may follow a carriage return. -/
def takeLineEnds : List Char → List Char × List Char
  | '\n' :: rest => let (text, rest) := takeLineEnds rest; ('\n' :: text, rest)
  | '\r' :: '\n' :: rest => let (text, rest) := takeLineEnds rest; ('\r' :: '\n' :: text, rest)
  | rest => ([], rest)

/-- The longest run of characters of one class. -/
def takeRun (accepts : Char → Bool) (text : List Char) : List Char × List Char :=
  (text.takeWhile accepts, text.dropWhile accepts)

/-- Digits, and a point with more digits when a digit follows the point. -/
def takeNumber (text : List Char) : List Char × List Char :=
  let (whole, rest) := takeRun Char.isDigit text
  match rest with
  | '.' :: digit :: more =>
    if digit.isDigit then
      let (fraction, rest) := takeRun Char.isDigit (digit :: more)
      (whole ++ '.' :: fraction, rest)
    else (whole, rest)
  | _ => (whole, rest)

/-- A lexeme that starts with neither a letter nor a digit. -/
def scanMark : List Char → Option (Terminal × List Char × List Char)
  | [] => none
  | '"' :: rest => (closeString rest).map fun (text, rest) => (.string, '"' :: text, rest)
  | '/' :: '*' :: rest =>
    match closeComment rest with
    | some (text, rest) => some (.comment, '/' :: '*' :: text, rest)
    | none => some (.symbol '/', ['/'], '*' :: rest)
  | '/' :: '/' :: rest => some (.comment, takeRun (· != '\n') ('/' :: '/' :: rest))
  | '\n' :: rest => some (.lineEnds, takeLineEnds ('\n' :: rest))
  | '\r' :: '\n' :: rest => some (.lineEnds, takeLineEnds ('\r' :: '\n' :: rest))
  | '-' :: '>' :: rest => some (.arrow, ['-', '>'], rest)
  | character :: rest =>
    if isBlank character then some (.blanks, takeRun isBlank (character :: rest))
    else if isSymbol character then some (.symbol character, [character], rest)
    else none

/-- The lexeme at the front of a text: its class, its characters and what follows. -/
def scan : List Char → Option (Terminal × List Char × List Char)
  | [] => none
  | character :: rest =>
    if startsName character then some (.name, takeRun continuesName (character :: rest))
    else if character.isDigit then some (.number, takeNumber (character :: rest))
    else scanMark (character :: rest)

/-! ## The recognisers only split -/

theorem closeString_append {text inside rest : List Char}
    (closed : closeString text = some (inside, rest)) : inside ++ rest = text := by
  fun_induction closeString text generalizing inside rest <;>
    simp_all [Option.map_eq_some_iff] <;> grind

theorem closeComment_append {text inside rest : List Char}
    (closed : closeComment text = some (inside, rest)) : inside ++ rest = text := by
  fun_induction closeComment text generalizing inside rest <;>
    simp_all [Option.map_eq_some_iff] <;> grind

theorem takeLineEnds_append (text : List Char) :
    (takeLineEnds text).1 ++ (takeLineEnds text).2 = text := by
  fun_induction takeLineEnds text <;> simp_all

theorem takeRun_append (accepts : Char → Bool) (text : List Char) :
    (takeRun accepts text).1 ++ (takeRun accepts text).2 = text :=
  List.takeWhile_append_dropWhile

theorem takeRun_ne_nil {accepts : Char → Bool} {character : Char} (rest : List Char)
    (accepted : accepts character = true) : (takeRun accepts (character :: rest)).1 ≠ [] := by
  simp [takeRun, accepted]

theorem takeNumber_append (text : List Char) :
    (takeNumber text).1 ++ (takeNumber text).2 = text := by
  have whole := takeRun_append Char.isDigit text
  unfold takeNumber
  simp only
  split
  · rename_i digit more split
    have fraction := takeRun_append Char.isDigit (digit :: more)
    rw [split] at whole
    split
    · simp only [List.append_assoc, List.cons_append, fraction, whole]
    · simpa [split] using whole
  · exact whole

theorem takeNumber_ne_nil {character : Char} (rest : List Char)
    (digit : character.isDigit = true) : (takeNumber (character :: rest)).1 ≠ [] := by
  have whole := takeRun_ne_nil rest digit
  unfold takeNumber
  simp only
  split
  · split <;> simp_all
  · exact whole

theorem scanMark_splits {source text rest : List Char} {terminal : Terminal}
    (scanned : scanMark source = some (terminal, text, rest)) :
    text ++ rest = source ∧ text ≠ [] := by
  unfold scanMark at scanned
  split at scanned
  · simp at scanned
  · rename_i source
    simp only [Option.map_eq_some_iff] at scanned
    obtain ⟨⟨inside, remaining⟩, closed, equal⟩ := scanned
    cases equal
    simp [closeString_append closed]
  · rename_i source
    split at scanned
    · rename_i inside remaining closed
      cases scanned
      simp [closeComment_append closed]
    · cases scanned
      simp
  · rename_i source
    have splits := takeRun_append (· != '\n') ('/' :: '/' :: source)
    cases scanned
    exact ⟨splits, by simp⟩
  · rename_i source
    have splits := takeLineEnds_append ('\n' :: source)
    cases scanned
    exact ⟨splits, by simp⟩
  · rename_i source
    have splits := takeLineEnds_append ('\r' :: '\n' :: source)
    cases scanned
    exact ⟨splits, by simp⟩
  · cases scanned
    simp
  · rename_i character source _ _ _ _ _ _
    split at scanned
    · rename_i blank
      have splits := takeRun_append isBlank (character :: source)
      cases scanned
      exact ⟨splits, takeRun_ne_nil _ blank⟩
    · split at scanned
      · cases scanned
        simp
      · simp at scanned

theorem scan_splits {source text rest : List Char} {terminal : Terminal}
    (scanned : scan source = some (terminal, text, rest)) :
    text ++ rest = source ∧ text ≠ [] := by
  unfold scan at scanned
  split at scanned
  · simp at scanned
  · rename_i character source
    split at scanned
    · rename_i starts
      have splits := takeRun_append continuesName (character :: source)
      cases scanned
      refine ⟨splits, takeRun_ne_nil _ ?_⟩
      simp only [startsName, continuesName, Char.isAlphanum, Bool.or_eq_true] at starts ⊢
      rcases starts with letter | underscore
      · exact .inl (.inl letter)
      · exact .inr underscore
    · split at scanned
      · rename_i digit
        have splits := takeNumber_append (character :: source)
        have nonempty := takeNumber_ne_nil source digit
        simp only [Option.some.injEq, Prod.mk.injEq] at scanned
        rw [scanned.2] at splits nonempty
        exact ⟨splits, nonempty⟩
      · exact scanMark_splits scanned

theorem scan_shortens {source text rest : List Char} {terminal : Terminal}
    (scanned : scan source = some (terminal, text, rest)) : rest.length < source.length := by
  obtain ⟨splits, nonempty⟩ := scan_splits scanned
  have positive := List.length_pos_iff.mpr nonempty
  rw [← splits, List.length_append]
  omega

end Lexeme

structure Lexeme where
  terminal : Terminal
  text : List Char
  position : Position
deriving DecidableEq, Repr

/-- The lexemes of a text that starts at the given position. -/
def Lexeme.cut (position : Position) (source : List Char) : Result (List Lexeme) :=
  match _scanned : scan source with
  | some (terminal, text, rest) => do
    let later ← cut (position.after text) rest
    return ⟨terminal, text, position⟩ :: later
  | none =>
    match source with
    | [] => .ok []
    | character :: _ =>
      fail (.unexpectedCharacter character) (position.line : Int) (position.column : Int)
termination_by source.length
decreasing_by exact scan_shortens _scanned

end ParaLang
