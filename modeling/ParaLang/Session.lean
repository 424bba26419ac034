import ParaLang.Interpretation
import ParaLang.Text

/-! # Sessions

A session runs one program after another.  It keeps the tree and the inspections of the last run
that succeeded, and a transcript of everything it has written: the messages of every run, and after
them, if the run succeeds, its inspections. -/

namespace ParaLang

/-- A written line and what it belongs to. -/
inductive TranscriptLine where
  | message (text : String)
  | inspection (text : String)
deriving DecidableEq, Repr

def TranscriptLine.text : TranscriptLine → String
  | message text | inspection text => text

def TranscriptLine.isMessage : TranscriptLine → Bool
  | message _ => true
  | inspection _ => false

structure Session where
  verbosity : Nat
  current : Outcome := {}
  /-- The trees of the successful runs before the current one, oldest first. -/
  earlier : List Scope := []
  /-- Whether any run has succeeded yet. -/
  started : Bool := false
  transcript : List TranscriptLine := []

namespace Session

/-- Runs a program.  A failing one adds its messages to the transcript and changes nothing else. -/
def interpret (session : Session) (tokens : List AnnotatedToken) : Result Outcome × Session :=
  let run := ParaLang.interpret session.verbosity tokens
  let noted := session.transcript ++ run.messages.map (TranscriptLine.message ·.text)
  match run.outcome with
  | .error failure => (.error failure, { session with transcript := noted })
  | .ok outcome =>
    (.ok outcome, { session with
      current := outcome
      earlier := if session.started then session.earlier ++ [session.current.root] else []
      started := true
      transcript := noted ++ outcome.lines.map TranscriptLine.inspection })

/-- The variable at a path of the current tree. -/
def lookup (session : Session) (path : List String) : Result Variable :=
  session.current.root.resolve path

/-- Assigns in the current tree, which becomes the one that the assignment leaves. -/
def assign (session : Session) (assignment : Assignment) : Result Variable × Session :=
  let (result, root) := session.current.root.carryOut assignment
  (result, { session with current := { session.current with root := root } })

/-- The trees of the successful runs, oldest first. -/
def trees (session : Session) : List Scope :=
  if session.started then session.earlier ++ [session.current.root] else []

/-- The text of the lines that a writer for some of them receives. -/
def written (session : Session) (wanted : TranscriptLine → Bool) : String :=
  Text.unlines ((session.transcript.filter wanted).map TranscriptLine.text)

end Session

end ParaLang
