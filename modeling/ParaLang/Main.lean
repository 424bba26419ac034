import ParaLang.CommandLine

/-! # The program

Reads the program file that the arguments name, and prints and writes what the command line makes
of it. -/

namespace ParaLang

/-- The contents of a file, if it can be read. -/
def readContents (path : FilePath) : IO (Option String) := do
  try return some (← IO.FS.readFile path.text) catch _ => return none

end ParaLang

def main (arguments : List String) : IO UInt32 := do
  let contents ← match ParaLang.CommandLine.programFile? arguments with
    | some path => ParaLang.readContents path
    | none => pure none
  let report := ParaLang.CommandLine.run arguments fun _ => contents
  for (name, text) in report.files do
    IO.FS.writeFile name text
  IO.print report.output
  IO.eprint report.errors
  return report.exitCode.toUInt32
