/-! # File paths

A path is a root, which is empty for relative paths, and the names that lead from it.  Empty names
and names for the directory itself are dropped when a path is read. -/

namespace ParaLang

structure FilePath where
  root : String
  names : List String
deriving DecidableEq, Repr

namespace FilePath

/-- The names between the slashes. -/
def splitNames (current : List Char) : List Char → List String
  | [] => [String.ofList current.reverse]
  | character :: rest =>
    if character = '/' then String.ofList current.reverse :: splitNames [] rest
    else splitNames (character :: current) rest

/-- Two slashes at the front, and no more, make a root of their own. -/
def rootOf (text : List Char) : String :=
  match (text.takeWhile (· == '/')).length with
  | 0 => ""
  | 2 => "//"
  | _ => "/"

def ofText (text : String) : FilePath where
  root := rootOf text.toList
  names := (splitNames [] text.toList).filter fun name => name != "" && name != "."

def text (path : FilePath) : String :=
  let names := "/".intercalate path.names
  if path.root = "" ∧ path.names.isEmpty then "." else path.root ++ names

/-- The last name. -/
def fileName (path : FilePath) : String :=
  path.names.getLast?.getD ""

/-- A file name cut in front of its last dot.  A dot at either end of the name starts no
extension. -/
def splitExtension (fileName : List Char) : List Char × List Char :=
  let extension := fileName.reverse.takeWhile (· != '.')
  let stem := fileName.take (fileName.length - extension.length - 1)
  if stem.isEmpty ∨ extension.isEmpty ∨ extension.length = fileName.length then (fileName, [])
  else (stem, fileName.drop stem.length)

def extension (path : FilePath) : String :=
  String.ofList (splitExtension path.fileName.toList).2

/-- The path with another extension in place of its own. -/
def withExtension (path : FilePath) (extension : String) : FilePath :=
  let stem := String.ofList (splitExtension path.fileName.toList).1
  { path with names := path.names.dropLast ++ [stem ++ extension] }

end FilePath

end ParaLang
