import ParaLang.Interpretation
import ParaLang.Proofs.Result

/-! # Runs of different verbosity

A run notes the messages up to its verbosity and does nothing else with it.  So of two runs of the
same program, one of them at the level of all messages, the other one has the same outcome and
notes those of the messages that its verbosity reaches. -/

namespace ParaLang

/-! ## Levels -/

def firstWord (text : String) : String :=
  String.ofList (text.toList.takeWhile (· != ' '))

/-- The level of the messages that start with a word. -/
def levelOfWord? : String → Option Nat
  | "assign" => some 1
  | "resolve" | "fallback" => some 2
  | "tokens:" | "postfix:" => some 3
  | _ => none

/-- The level of a message, which its first word tells. -/
def noticeLevel? (text : String) : Option Nat :=
  levelOfWord? (firstWord text)

/-- The level of the messages that only the most verbose runs note. -/
def fullVerbosity : Nat := 3

theorem firstWord_append {start : String} (ends : ' ' ∈ start.toList) (rest : String) :
    firstWord (start ++ rest) = firstWord start := by
  have stops : (start.toList.takeWhile (· != ' ')).length ≠ start.toList.length := by
    intro all
    have same := (List.takeWhile_prefix (· != ' ')).eq_of_length all
    have blank := List.all_takeWhile (p := (· != ' ')) (l := start.toList)
    rw [same, List.all_eq_true] at blank
    simpa using blank ' ' ends
  rw [firstWord, firstWord, String.toList_append, List.takeWhile_append, if_neg stops]

theorem level_le_of_noticeLevel? {text : String} {level : Nat}
    (announced : noticeLevel? text = some level) : level ≤ fullVerbosity := by
  unfold noticeLevel? levelOfWord? at announced
  split at announced <;> cases announced <;> decide

namespace Traced

variable {α β : Type} {verbosity : Nat}

/-- What a run shares with the run of the same program at full verbosity. -/
structure Thins (verbosity : Nat) (run full : Traced α) : Prop where
  outcome : run.outcome = full.outcome
  messages : run.messages = full.messages.filter (·.level ≤ verbosity)
  announced : ∀ message ∈ full.messages, noticeLevel? message.text = some message.level

theorem thins_ofResult (result : Result α) :
    Thins verbosity (ofResult result) (ofResult result) :=
  ⟨rfl, rfl, by simp [ofResult]⟩

theorem thins_pure (value : α) :
    Thins verbosity (Pure.pure value : Traced α) (Pure.pure value) :=
  thins_ofResult (.ok value)

theorem thins_note {level : Nat} {start : String} (ends : ' ' ∈ start.toList)
    (announced : noticeLevel? start = some level) (rest : String) :
    Thins verbosity (note verbosity level (start ++ rest))
      (note fullVerbosity level (start ++ rest)) where
  outcome := rfl
  messages := by
    simp only [note, if_pos (level_le_of_noticeLevel? announced)]
    split <;> simp [*]
  announced message member := by
    simp only [note, if_pos (level_le_of_noticeLevel? announced), List.mem_singleton] at member
    rw [member, noticeLevel?, firstWord_append ends]
    exact announced

theorem Thins.bind {run full : Traced α} {next fullNext : α → Traced β}
    (first : Thins verbosity run full)
    (later : ∀ value, Thins verbosity (next value) (fullNext value)) :
    Thins verbosity (run >>= next) (full >>= fullNext) := by
  change Thins verbosity (Traced.bind run next) (Traced.bind full fullNext)
  unfold Traced.bind
  rw [first.outcome]
  cases full.outcome with
  | error failure =>
    exact ⟨rfl, first.messages, first.announced⟩
  | ok value =>
    obtain ⟨outcome, messages, announced⟩ := later value
    refine ⟨outcome, ?_, List.forall_mem_append.mpr ⟨first.announced, announced⟩⟩
    simp only [first.messages, messages, List.filter_append]

end Traced

/-! ## Programs

One lemma for each function that notes messages or calls one that does. -/

open Traced

variable {verbosity : Nat}

theorem Expression.thins_evaluate (root : Scope) (tokens : List AnnotatedToken) :
    Thins verbosity (evaluate verbosity root tokens) (evaluate fullVerbosity root tokens) := by
  refine (thins_ofResult (toPostfix tokens)).bind fun postfixed => ?_
  refine (thins_note (by decide) rfl _).bind fun _ => ?_
  exact thins_ofResult _

namespace Interpretation

theorem thins_resolveReference (root : Scope) (target : Target) (path : List String)
    (place : AnnotatedToken) :
    Thins verbosity (resolveReference verbosity root target path place)
      (resolveReference fullVerbosity root target path place) := by
  refine Thins.bind ?_ fun _ => ?_
  · simp only [String.append_assoc]
    exact thins_note (by decide) rfl _
  · cases root.resolve path place.line place.number with
    | ok found => exact thins_pure found
    | error failure =>
      simp only
      split
      · exact thins_ofResult _
      · refine Thins.bind ?_ fun _ => thins_ofResult _
        simp only [String.append_assoc]
        exact thins_note (by decide) rfl _

theorem thins_valueAfter (root : Scope) (target : Target) (assign : AnnotatedToken)
    (rest : List AnnotatedToken) :
    Thins verbosity (valueAfter verbosity root target assign rest)
      (valueAfter fullVerbosity root target assign rest) := by
  cases rest with
  | nil => exact thins_ofResult _
  | cons token rest =>
    simp only [valueAfter]
    split
    · exact thins_pure token.value
    · split
      · exact (thins_resolveReference root target _ token).bind fun found => thins_pure _
      · exact thins_ofResult _

theorem thins_commit (state : State) (target : Target) (value : Option Value) :
    Thins verbosity (commit verbosity state target value)
      (commit fullVerbosity state target value) := by
  refine (thins_ofResult _).bind fun (entry, root) => ?_
  refine Thins.bind ?_ fun _ => thins_pure _
  simp only [String.append_assoc]
  exact thins_note (by decide) rfl _

theorem thins_step (state : State) (passed : List AnnotatedToken) (token : AnnotatedToken)
    (rest : List AnnotatedToken) :
    Thins verbosity (step verbosity state passed token rest)
      (step fullVerbosity state passed token rest) := by
  unfold step
  split
  case h_1 =>
    refine (thins_ofResult _).bind fun target => ?_
    split
    · exact thins_pure _
    · exact (thins_valueAfter _ target token rest).bind fun value => thins_commit _ target value
  case h_2 =>
    split
    · exact thins_ofResult _
    · split
      · exact thins_ofResult _
      · next target _ _ run _ =>
        exact (Expression.thins_evaluate _ run).bind fun value => thins_commit _ target value
  case h_3 => exact (thins_ofResult _).bind fun inspection => thins_pure _
  case h_4 => exact thins_pure state

theorem thins_walk (state : State) (passed tokens : List AnnotatedToken) :
    Thins verbosity (walk verbosity state passed tokens)
      (walk fullVerbosity state passed tokens) := by
  induction tokens generalizing state passed with
  | nil => exact thins_pure state
  | cons token rest inductionHypothesis =>
    exact (thins_step state passed token rest).bind fun next => inductionHypothesis next _

end Interpretation

theorem thins_interpret (tokens : List AnnotatedToken) :
    Thins verbosity (interpret verbosity tokens) (interpret fullVerbosity tokens) := by
  refine (thins_note (by decide) rfl _).bind fun _ => ?_
  exact (Interpretation.thins_walk {} [] tokens).bind fun state => thins_pure _

end ParaLang
