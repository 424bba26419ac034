import ParaLang.CommandLine.Arguments
import ParaLang.CommandLine.FilePath
import ParaLang.Plain
import ParaLang.Scope.State
import ParaLang.Scope.Walk
import ParaLang.Statement

/-! # The command line

A command runs one program file and prints its inspections, or prints or writes what a mode makes
of it.  With a verbosity above zero the messages of the run go to a file of their own.  The command
itself only computes what is to be printed and written. -/

namespace ParaLang.CommandLine

def programExtension : String := ".para"

/-- What a command prints and writes, and the code it exits with. -/
structure Report where
  exitCode : Nat := 0
  output : String := ""
  errors : String := ""
  files : List (String × String) := []
deriving DecidableEq, Repr

def usage : String :=
  "usage: para [-v] [--emit-flat FILE | --emit-baked FILE | --dump FILE | --emit-state FILE | " ++
    "--tokens FILE] [program]\n"

/-- The work stops with a message. -/
def stopped (files : List (String × String)) (message : String) : Report :=
  { exitCode := 1, errors := "Error: " ++ message ++ "\n", files := files }

/-- A failing program is reported; a fault, which no program text leads to, has only its wording. -/
def failed (files : List (String × String)) : Failure → Report
  | .diagnostic diagnostic => stopped files diagnostic.text
  | .fault fault => stopped files (fault.message?.getD "")

/-- A file is written and its path printed. -/
def wrote (files : List (String × String)) (output : String) (path : FilePath) (text : String) :
    Report :=
  { output := output ++ path.text ++ "\n", files := files ++ [(path.text, text)] }

/-- The file with the messages of a run. -/
def messageFile (verbosity : Nat) (messages : List Message) : List (String × String) :=
  if verbosity = 0 then [] else [("debug.txt", Text.unlines (messages.map Message.text))]

/-- What a mode makes of a program that has run. -/
def present (mode : Option Mode) (path : FilePath) (tokens : List AnnotatedToken)
    (files : List (String × String)) (outcome : Outcome) : Report :=
  let printed := Text.unlines outcome.lines
  match mode with
  | some .baked =>
    match renderBaked tokens outcome.root with
    | .ok text => wrote files printed (path.withExtension ".baked.para") text
    | .error fault => failed files (.fault fault)
  | some .dump => { output := printed ++ outcome.root.dump false, files := files }
  | some .state =>
    wrote files printed (path.withExtension ".state.json")
      ((outcome.root.encode false).json 0 ++ "\n")
  | _ => { output := printed, files := files }

/-- Runs a program text in a mode. -/
def runSource (verbosity : Nat) (mode : Option Mode) (path : FilePath) (source : String) :
    Report :=
  match annotateSource source with
  | .error failure => failed (messageFile verbosity []) failure
  | .ok tokens =>
    match mode with
    | some .tokens =>
      { output := Text.unlines (tokens.map AnnotatedToken.listing)
        files := messageFile verbosity [] }
    | some .flat =>
      match renderFlat tokens with
      | .ok text => wrote (messageFile verbosity []) "" (path.withExtension ".f.para") text
      | .error fault => failed (messageFile verbosity []) (.fault fault)
    | _ =>
      let run := interpret verbosity tokens
      let files := messageFile verbosity run.messages
      match run.outcome with
      | .error failure => failed files failure
      | .ok outcome => present mode path tokens files outcome

/-- The program file that the arguments name, if they are valid. -/
def programFile? (texts : List String) : Option FilePath :=
  match readArguments texts with
  | .run arguments =>
    if arguments.task.2 = "" then none else some (FilePath.ofText arguments.task.2)
  | _ => none

/-- Carries out a command, given a way to read files. -/
def run (texts : List String) (read : FilePath → Option String) : Report :=
  match readArguments texts with
  | .help => { output := usage }
  | .invalid => { exitCode := 2, errors := usage }
  | .run arguments =>
    let (mode, file) := arguments.task
    if file = "" then { exitCode := 2, errors := usage }
    else
      let path := FilePath.ofText file
      if path.extension ≠ programExtension then
        stopped [] ("file " ++ path.text ++ " must have a " ++ programExtension ++ " extension")
      else match read path with
        | none => stopped [] ("file " ++ path.text ++ " not found")
        | some contents => runSource arguments.verbosity mode path (Text.normalised contents)

end ParaLang.CommandLine
