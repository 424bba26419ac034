import Mathlib.Data.List.Basic
import ParaLang.Proofs.Interpretation.Verbosity
import ParaLang.Session

/-! # Sessions are atomic

A session runs its programs as if each of them were alone: what it keeps is what the last one that
succeeds leaves behind, and what it writes are the inspections of those that succeed.  The verbosity
decides about the messages only, of which a less verbose session notes fewer. -/

namespace ParaLang.Session

variable {session : Session}

/-- Runs programs one after another. -/
def interpretAll (session : Session) :
    List (List AnnotatedToken) → List (Result Outcome) × Session
  | [] => ([], session)
  | stream :: streams =>
    let (answer, next) := session.interpret stream
    let (answers, last) := next.interpretAll streams
    (answer :: answers, last)

/-- The texts of some of the lines in the transcript. -/
def texts (session : Session) (wanted : TranscriptLine → Bool) : List String :=
  (session.transcript.filter wanted).map TranscriptLine.text

/-- What the programs that succeed leave behind. -/
def outcomes (verbosity : Nat) (streams : List (List AnnotatedToken)) : List Outcome :=
  streams.filterMap fun stream => (ParaLang.interpret verbosity stream).outcome.toOption

/-! ## One program -/

/-- What running a program does to a session. -/
structure Runs (session : Session) (stream : List AnnotatedToken) (answer : Result Outcome)
    (next : Session) : Prop where
  answer : answer = (ParaLang.interpret session.verbosity stream).outcome
  verbosity : next.verbosity = session.verbosity
  current : next.current = (outcomes session.verbosity [stream]).getLast?.getD session.current
  messages : next.texts (·.isMessage) = session.texts (·.isMessage) ++
    (ParaLang.interpret session.verbosity stream).messages.map Message.text
  inspections : next.texts (!·.isMessage) = session.texts (!·.isMessage) ++
    (outcomes session.verbosity [stream]).flatMap Outcome.lines

theorem runs (session : Session) (stream : List AnnotatedToken) :
    Runs session stream (session.interpret stream).1 (session.interpret stream).2 := by
  cases outcome : (ParaLang.interpret session.verbosity stream).outcome with
  | error failure =>
    have nothing : outcomes session.verbosity [stream] = [] := by
      simp [outcomes, outcome, Except.toOption]
    constructor <;> simp [interpret, outcome, nothing, texts, List.filter_map, List.filter_true,
      Function.comp_def, TranscriptLine.isMessage, TranscriptLine.text]
  | ok left =>
    have only : outcomes session.verbosity [stream] = [left] := by
      simp [outcomes, outcome, Except.toOption]
    constructor <;> simp [interpret, outcome, only, texts, List.filter_map, List.filter_true,
      List.filter_false, Function.comp_def, TranscriptLine.isMessage, TranscriptLine.text]

/-! ## Many programs -/

/-- What running programs one after another does to a session. -/
structure RunsAll (session : Session) (streams : List (List AnnotatedToken))
    (answers : List (Result Outcome)) (last : Session) : Prop where
  answers : answers =
    streams.map fun stream => (ParaLang.interpret session.verbosity stream).outcome
  current : last.current = (outcomes session.verbosity streams).getLast?.getD session.current
  messages : last.texts (·.isMessage) = session.texts (·.isMessage) ++
    streams.flatMap fun stream =>
      (ParaLang.interpret session.verbosity stream).messages.map Message.text
  inspections : last.texts (!·.isMessage) = session.texts (!·.isMessage) ++
    (outcomes session.verbosity streams).flatMap Outcome.lines

theorem outcomes_cons (verbosity : Nat) (stream : List AnnotatedToken)
    (streams : List (List AnnotatedToken)) :
    outcomes verbosity (stream :: streams) =
      outcomes verbosity [stream] ++ outcomes verbosity streams :=
  List.filterMap_append (l := [stream])

theorem Runs.cons {next last : Session} {stream : List AnnotatedToken}
    {streams : List (List AnnotatedToken)} {answer : Result Outcome}
    {answers : List (Result Outcome)} (first : Runs session stream answer next)
    (later : RunsAll next streams answers last) :
    RunsAll session (stream :: streams) (answer :: answers) last := by
  obtain ⟨laterAnswers, laterCurrent, laterMessages, laterInspections⟩ := later
  rw [first.verbosity] at laterAnswers laterCurrent laterMessages laterInspections
  constructor
  case answers => rw [first.answer, laterAnswers, List.map_cons]
  case current =>
    rw [laterCurrent, first.current, outcomes_cons _ stream streams, List.getLast?_append]
    cases (outcomes session.verbosity streams).getLast? <;> rfl
  case messages =>
    rw [laterMessages, first.messages, List.append_assoc, List.flatMap_cons]
  case inspections =>
    rw [laterInspections, first.inspections, List.append_assoc, outcomes_cons _ stream streams,
      List.flatMap_append]

theorem runsAll (session : Session) (streams : List (List AnnotatedToken)) :
    RunsAll session streams (session.interpretAll streams).1 (session.interpretAll streams).2 := by
  induction streams generalizing session with
  | nil => exact ⟨rfl, rfl, by simp [interpretAll], by simp [interpretAll, outcomes]⟩
  | cons stream streams inductionHypothesis =>
    exact (runs session stream).cons (inductionHypothesis _)

/-! ## Verbosity -/

theorem outcome_interpret_eq (verbosity other : Nat) (stream : List AnnotatedToken) :
    (ParaLang.interpret verbosity stream).outcome = (ParaLang.interpret other stream).outcome :=
  (thins_interpret stream).outcome.trans (thins_interpret stream).outcome.symm

/-- Of the messages of the most verbose run, a run notes those that its verbosity reaches. -/
theorem messages_interpret (verbosity : Nat) (stream : List AnnotatedToken) :
    (ParaLang.interpret verbosity stream).messages.map Message.text =
      ((ParaLang.interpret fullVerbosity stream).messages.map Message.text).filter
        fun text => (noticeLevel? text).any (· ≤ verbosity) := by
  obtain ⟨-, messages, announced⟩ := @thins_interpret verbosity stream
  rw [messages, List.filter_map]
  refine congrArg _ (List.filter_congr fun message member => ?_)
  simp [announced message member]

/-- A session runs its programs as if each were alone.  What it answers, what it keeps and the
inspections it writes are the same whatever its verbosity; of the messages of the most verbose
session it notes those that its verbosity reaches. -/
theorem interpretAll_observed (verbosity other : Nat) (streams : List (List AnnotatedToken)) :
    let alone := fun stream => (({ verbosity := other } : Session).interpret stream).1
    let succeeded := streams.filterMap fun stream => (alone stream).toOption
    let ran := ({ verbosity := verbosity } : Session).interpretAll streams
    let full := ({ verbosity := fullVerbosity } : Session).interpretAll streams
    let reached := (full.2.texts (·.isMessage)).filter
      fun text => (noticeLevel? text).any (· ≤ verbosity)
    ran.1 = streams.map alone ∧
    ran.2.current = succeeded.getLast?.getD {} ∧
    ran.2.written (!·.isMessage) = Text.unlines (succeeded.flatMap Outcome.lines) ∧
    ran.2.written (·.isMessage) = Text.unlines reached ∧
    ran.2.texts (·.isMessage) = reached := by
  intro alone succeeded ran full reached
  have isAlone : alone = fun stream => (ParaLang.interpret verbosity stream).outcome := by
    funext stream
    exact (runs _ stream).answer.trans (outcome_interpret_eq other verbosity stream)
  have same : succeeded = outcomes verbosity streams := by
    simp only [succeeded, isAlone, outcomes]
  obtain ⟨answers, current, messages, inspections⟩ := runsAll { verbosity := verbosity } streams
  obtain ⟨-, -, fullMessages, -⟩ := runsAll { verbosity := fullVerbosity } streams
  have noted : ran.2.texts (·.isMessage) = reached := by
    simp only [reached, ran, full]
    rw [messages, fullMessages]
    simp [texts, messages_interpret verbosity, List.filter_flatMap]
  refine ⟨?_, ?_, ?_, congrArg Text.unlines noted, noted⟩
  · rw [isAlone]
    exact answers
  · rw [same]
    exact current
  · rw [same]
    exact congrArg Text.unlines inspections

end ParaLang.Session
