import ParaLang.Proofs.Interpretation.Exchange
import ParaLang.Proofs.Statement.Essence

/-! # The baked form of a program

The baked form of a program is a program again.  It leaves the variables that the program leaves but
for the temporary ones, if every value can be written in place of its references: no variable
changes, no sign is torn from its number, and no reference is overtaken by a variable nearer by that
comes later.  The baked form takes the first name of a statement for the one it defines, so a
statement must not show another one before that. -/

namespace ParaLang

open AnnotatedToken (essence)
open Annotations
open Grammar
open Statement (bake target? DefinesTarget definesTemporary reference pastes)

/-- The values of a tree can be written into a program. -/
structure Bakeable (tree : Scope) (program : List (List AnnotatedToken)) : Prop where
  defines : ∀ statement ∈ program, DefinesTarget statement
  /-- No statement assigns to the path of a reference in an earlier one. -/
  ordered : program.Pairwise fun earlier later => definesTemporary tree earlier = false →
    ∀ target ∈ target? later, target.path ≠ reference earlier
  /-- The values are displayed by literals, and their signs bind as tightly as the names. -/
  pasted : ∀ statement ∈ program, definesTemporary tree statement = false →
    pastes tree statement = true

instance (tree : Scope) (program : List (List AnnotatedToken)) :
    Decidable (Bakeable tree program) :=
  decidable_of_iff
    ((∀ statement ∈ program, DefinesTarget statement) ∧
      (program.Pairwise fun earlier later => definesTemporary tree earlier = false →
        ∀ target ∈ target? later, target.path ≠ reference earlier) ∧
      ∀ statement ∈ program, definesTemporary tree statement = false →
        pastes tree statement = true)
    ⟨fun ⟨defines, ordered, pasted⟩ => ⟨defines, ordered, pasted⟩,
      fun ⟨defines, ordered, pasted⟩ => ⟨defines, ordered, pasted⟩⟩

section Essences

variable {tree : Scope} {program : List (List AnnotatedToken)}

theorem bake_essence {statement : List AnnotatedToken}
    (inner : ∀ token ∈ statement, token.role.isBoundary = false) :
    bake tree (statement.map essence) = bake tree statement := by
  have groups := Statement.groups_essence statement
  have texts := @Statement.bakeTokens_essence tree (Statement.groups statement) _ inner false 0
  unfold Statement.groups at groups texts
  rw [bake, groups, texts]
  rfl

theorem bakeable_essence
    (inner : ∀ statement ∈ program, ∀ token ∈ statement, token.role.isBoundary = false) :
    Bakeable tree (program.map (List.map essence)) ↔ Bakeable tree program := by
  have defines : (∀ statement ∈ program.map (List.map essence), DefinesTarget statement) ↔
      ∀ statement ∈ program, DefinesTarget statement := by
    simp only [List.forall_mem_map, Statement.definesTarget_essence]
  have ordered : (program.map (List.map essence)).Pairwise (fun earlier later =>
      definesTemporary tree earlier = false → ∀ target ∈ target? later,
        target.path ≠ reference earlier) ↔
      program.Pairwise fun earlier later => definesTemporary tree earlier = false →
        ∀ target ∈ target? later, target.path ≠ reference earlier := by
    simp only [List.pairwise_map, Statement.definesTemporary_essence, Statement.target?_essence,
      Statement.reference_essence, Option.mem_def, Option.map_eq_some_iff, forall_exists_index,
      and_imp, forall_apply_eq_imp_iff₂]
    rfl
  have pasted : (∀ statement ∈ program.map (List.map essence),
      definesTemporary tree statement = false → pastes tree statement = true) ↔
      ∀ statement ∈ program, definesTemporary tree statement = false →
        pastes tree statement = true := by
    simp only [List.forall_mem_map, Statement.definesTemporary_essence]
    exact forall₂_congr fun statement member => by
      rw [Statement.pastes_essence (inner statement member)]
  exact ⟨fun ⟨first, second, third⟩ => ⟨defines.mp first, ordered.mp second, pasted.mp third⟩,
    fun ⟨first, second, third⟩ => ⟨defines.mpr first, ordered.mpr second, pasted.mpr third⟩⟩

/-- The lines of the baked form. -/
theorem mapM_bake_essence
    (inner : ∀ statement ∈ program, ∀ token ∈ statement, token.role.isBoundary = false) :
    ((program.map (List.map essence)).filter fun statement =>
        !definesTemporary tree statement).mapM (bake tree) =
      (program.filter fun statement => !definesTemporary tree statement).mapM (bake tree) := by
  induction program with
  | nil => rfl
  | cons statement program inductionHypothesis =>
    obtain ⟨first, later⟩ := List.forall_mem_cons.mp inner
    have others := inductionHypothesis later
    rw [List.map_cons, List.filter_cons, List.filter_cons, Statement.definesTemporary_essence]
    split
    · rw [List.mapM_cons, List.mapM_cons, bake_essence first, others]
    · exact others

end Essences

/-! ## Programs outside of blocks -/

section Outside

variable {tree : Scope} {program : List (List AnnotatedToken)}
  {outside : List (Statement NumberedToken)}

theorem Annotations.Showable.inner {statement : List AnnotatedToken} (showable : Showable statement) :
    ∀ token ∈ statement, token.role.isBoundary = false := fun token member =>
  AnnotatedToken.inner_of_presentable (showable.presentable token member)

theorem Annotations.Showable.exists_outside {statement : List AnnotatedToken}
    (showable : Showable statement) :
    ∃ outside : Statement NumberedToken, (Sound outside ∧ Showable (statementTokens [] outside)) ∧
      (statementTokens [] outside).map essence = statement.map essence := by
  obtain ⟨nonempty, presentable, frames, inside, sound, rfl⟩ := showable
  obtain ⟨outside, -, outsideSound, alike⟩ := exists_qualified frames sound 0
  refine ⟨outside, ⟨outsideSound, ?_, ?_, [], outside, outsideSound, rfl⟩, alike⟩
  · intro noTokens
    rw [noTokens] at alike
    exact nonempty (List.map_eq_nil_iff.mp alike.symm)
  · exact (AnnotatedToken.shown_of_essence alike presentable).1

/-- Statements outside of all blocks that read like a program. -/
structure ReadsOutside (program : List (List AnnotatedToken))
    (outside : List (Statement NumberedToken)) : Prop where
  each : ∀ statement ∈ outside, Sound statement ∧ Showable (statementTokens [] statement)
  alike : (outside.map (statementTokens [])).map (List.map essence) =
    program.map (List.map essence)

theorem exists_readsOutside (showable : ∀ statement ∈ program, Showable statement) :
    ∃ outside, ReadsOutside program outside := by
  induction program with
  | nil => exact ⟨[], by simp, rfl⟩
  | cons statement program inductionHypothesis =>
    obtain ⟨first, later⟩ := List.forall_mem_cons.mp showable
    obtain ⟨other, fits, alike⟩ := first.exists_outside
    obtain ⟨others, each, alikeLater⟩ := inductionHypothesis later
    refine ⟨other :: others, List.forall_mem_cons.mpr ⟨fits, each⟩, ?_⟩
    rw [List.map_cons, List.map_cons, List.map_cons, alike, alikeLater]

namespace ReadsOutside

theorem inner (reads : ReadsOutside program outside) :
    ∀ statement ∈ outside.map (statementTokens []), ∀ token ∈ statement,
      token.role.isBoundary = false :=
  List.forall_mem_map.mpr fun statement member => (reads.each statement member).2.inner

theorem bakeable (reads : ReadsOutside program outside)
    (inner : ∀ statement ∈ program, ∀ token ∈ statement, token.role.isBoundary = false)
    (bakeable : Bakeable tree program) : Bakeable tree (outside.map (statementTokens [])) := by
  rw [← bakeable_essence reads.inner, reads.alike, bakeable_essence inner]
  exact bakeable

/-- Both are baked alike. -/
theorem baked (reads : ReadsOutside program outside)
    (inner : ∀ statement ∈ program, ∀ token ∈ statement, token.role.isBoundary = false) :
    (program.filter fun statement => !definesTemporary tree statement).mapM (bake tree) =
      ((outside.filter fun statement =>
        !definesTemporary tree (statementTokens [] statement)).map (statementTokens [])).mapM
          (bake tree) := by
  have ofOutside := @mapM_bake_essence tree _ reads.inner
  rwa [reads.alike, mapM_bake_essence inner, List.filter_map] at ofOutside

/-- The targets of the statements are those of the program, up to places. -/
theorem exists_target (reads : ReadsOutside program outside) {statement : Statement NumberedToken}
    (member : statement ∈ outside) {target : Target}
    (isTarget : target? (statementTokens [] statement) = some target) :
    ∃ original ∈ program, ∃ other, target? original = some other ∧
      other.essence = target.essence := by
  have among : (statementTokens [] statement).map essence ∈ program.map (List.map essence) :=
    reads.alike ▸ List.mem_map_of_mem (List.mem_map_of_mem member)
  obtain ⟨original, inProgram, same⟩ := List.mem_map.mp among
  have sameTarget := congrArg target? same
  rw [Statement.target?_essence, Statement.target?_essence, isTarget, Option.map_some,
    Option.map_eq_some_iff] at sameTarget
  exact ⟨original, inProgram, sameTarget⟩

end ReadsOutside

/-! ## Baked programs -/

/-- Statements whose values can be written are baked line by line. -/
theorem exists_bakeds
    (each : ∀ statement ∈ outside, Sound statement ∧ Showable (statementTokens [] statement))
    (pasted : ∀ statement ∈ outside, pastes tree (statementTokens [] statement) = true) :
    ∃ bakeds, (∀ baked ∈ bakeds, Showable (statementTokens [] baked)) ∧
      List.Forall₂ (fun statement baked =>
        BakesStatement tree (Statement.groups (statementTokens [] statement)) statement baked ∧
          lineTokens (statementTokens [] baked) ≠ [] ∧ ∃ line text,
            bake tree (statementTokens [] statement) = .ok line ∧
              Token.Written (lineTokens (statementTokens [] baked)) text ∧
                line.toList = text.dropLast) outside bakeds := by
  induction outside with
  | nil => exact ⟨[], by simp, .nil⟩
  | cons statement outside inductionHypothesis =>
    obtain ⟨⟨sound, showable⟩, eachLater⟩ := List.forall_mem_cons.mp each
    obtain ⟨pastedFirst, pastedLater⟩ := List.forall_mem_cons.mp pasted
    obtain ⟨baked, bakes, bakedShowable, line⟩ := exists_bakedStatement sound showable pastedFirst
    obtain ⟨bakeds, showableLater, later⟩ := inductionHypothesis eachLater pastedLater
    exact ⟨baked :: bakeds, List.forall_mem_cons.mpr ⟨bakedShowable, showableLater⟩,
      .cons ⟨bakes, bakedShowable.lineTokens_ne_nil, line⟩ later⟩

/-- The lines that are baked for some statements are annotated with the baked statements. -/
theorem exists_annotateSource_baked
    (each : ∀ statement ∈ outside, Sound statement ∧ Showable (statementTokens [] statement))
    (pasted : ∀ statement ∈ outside, pastes tree (statementTokens [] statement) = true) :
    ∃ bakeds lines again,
      List.Forall₂ (fun statement baked => BakesStatement tree
        (Statement.groups (statementTokens [] statement)) statement baked) outside bakeds ∧
      (outside.map (statementTokens [])).mapM (bake tree) = .ok lines ∧
      annotateSource (Text.unlines lines) = .ok again ∧
      (statements again).map (List.map essence) =
        (bakeds.map (statementTokens [])).map (List.map essence) := by
  obtain ⟨bakeds, showable, related⟩ := exists_bakeds each pasted
  have lined : List.Forall₂ (fun part statement => lineTokens statement ≠ [] ∧ ∃ line text,
      bake tree part = .ok line ∧ Token.Written (lineTokens statement) text ∧
        line.toList = text.dropLast)
      (outside.map (statementTokens [])) (bakeds.map (statementTokens [])) := by
    rw [List.forall₂_map_left_iff, List.forall₂_map_right_iff]
    exact related.imp fun _ _ facts => facts.2
  obtain ⟨lines, baked, written⟩ := exists_writtenLines lined
  obtain ⟨again, annotated, alike⟩ :=
    exists_annotateSource_lines (List.forall_mem_map.mpr showable) written
  exact ⟨bakeds, lines, again, related.imp fun _ _ facts => facts.1, baked, annotated, alike⟩

end Outside

/-! ## Runs -/

section Runs

variable {verbosity : Nat}

open Interpretation (perform doAll_iff)

/-- Programs that read alike leave the same tree. -/
theorem exists_perform_alike {program others : List (List AnnotatedToken)} {root : Scope}
    (alike : program.map (List.map essence) = others.map (List.map essence))
    (performs : ∃ final, perform verbosity {} program = .ok final ∧ final.root = root)
    (otherVerbosity : Nat) :
    ∃ other, perform otherVerbosity {} others = .ok other ∧ other.root = root := by
  obtain ⟨final, performed, rfl⟩ := performs
  have here := @Interpretation.alike_perform_essence verbosity {} 0 program
  have there := @Interpretation.alike_perform_essence otherVerbosity {} 0 others
  rw [performed, alike] at here
  obtain ⟨image, ofEssence, rfl⟩ := here.ok_left
  rw [ofEssence] at there
  obtain ⟨other, ended, same⟩ := (there.symm fun _ _ equal => equal).ok_left
  exact ⟨other, ended, (congrArg Interpretation.State.root same).symm⟩

/-- A text runs well if its statements do. -/
theorem exists_run_iff {source : String} {written : List AnnotatedToken}
    (annotated : annotateSource source = .ok written) (root : Scope) :
    (∃ outcome, (runProgram verbosity source).outcome = .ok outcome ∧ outcome.root = root) ↔
      ∃ final, perform verbosity {} (statements written) = .ok final ∧ final.root = root := by
  simp only [runProgram, Traced.outcome_bind, Traced.outcome_lift, annotated, Result.ok_bind,
    interpret_eq_ok_iff, walk_eq_ok_iff_perform]
  constructor
  · rintro ⟨_, ⟨final, performed, rfl⟩, rfl⟩
    exact ⟨final, performed, rfl⟩
  · rintro ⟨final, performed, rfl⟩
    exact ⟨_, ⟨final, performed, rfl⟩, rfl⟩

theorem mutable_of_target? {statement : List AnnotatedToken} {target : Target}
    (immutable : ∀ token ∈ statement, token.mutable = false)
    (isTarget : target? statement = some target) : target.mutable = false := by
  unfold target? at isTarget
  split at isTarget
  · cases isTarget
  · next assign _ _ =>
    cases aims : Interpretation.targetBefore assign
        (statement.takeWhile (·.role != .assign)).reverse with
    | error failure =>
      rw [aims] at isTarget
      cases isTarget
    | ok found =>
      rw [aims] at isTarget
      obtain rfl : found = target := Option.some.inj isTarget
      obtain ⟨clause, name, front, passed, -, -, -, same, -⟩ := Interpretation.targetBefore_ok aims
      have member : name ∈ statement.takeWhile (·.role != .assign) := by
        rw [← List.mem_reverse, passed]
        simp
      exact same.trans (immutable name ((List.takeWhile_sublist _).subset member))

/-- The baked form is a faithful program, if the values can be written into it: it leaves the same
variables but for the temporary ones. -/
theorem runProgram_baked {source : String} {written : List AnnotatedToken} {outcome : Outcome}
    (annotated : annotateSource source = .ok written)
    (ran : (runProgram verbosity source).outcome = .ok outcome)
    (immutable : ∀ token ∈ written, token.mutable = false)
    (displayed : ∀ token ∈ written, Displayed token)
    (bakeable : Bakeable outcome.root (statements written)) :
    ∃ baked, renderBaked written outcome.root = .ok baked ∧ ∀ otherVerbosity, ∃ again,
      (runProgram otherVerbosity baked).outcome = .ok again ∧
        outcome.root.LastsIn again.root := by
  have showable := showable_of_annotateSource annotated displayed
  have inner := fun statement member => (showable statement member).inner
  obtain ⟨outside, reads⟩ := exists_readsOutside showable
  have performs := (exists_run_iff annotated outcome.root).mp ⟨_, ran, rfl⟩
  have all : Interpretation.DoAll verbosity {} outside outcome.root :=
    doAll_iff.mpr (exists_perform_alike reads.alike.symm performs verbosity)
  have bakeableOutside := reads.bakeable inner bakeable
  have unchangeable : ∀ statement ∈ outside,
      ∀ target ∈ target? (statementTokens [] statement), target.mutable = false := by
    intro statement member target isTarget
    obtain ⟨original, inProgram, other, isOther, same⟩ := reads.exists_target member isTarget
    have fixed := mutable_of_target?
      (fun token inside => immutable token (mem_of_mem_statements inProgram token inside)) isOther
    exact (congrArg Target.mutable same).symm.trans fixed
  obtain ⟨bakeds, lines, again, bakes, baked, annotatedAgain, alikeAgain⟩ :=
    @exists_annotateSource_baked outcome.root
      (outside.filter fun statement =>
        !definesTemporary outcome.root (statementTokens [] statement))
      (fun statement member => reads.each statement (List.mem_filter.mp member).1)
      (fun statement member => bakeableOutside.pasted _
        (List.mem_map_of_mem (List.mem_filter.mp member).1)
        (by simpa using (List.mem_filter.mp member).2))
  have rendered : renderBaked written outcome.root = .ok (Text.unlines lines) := by
    rw [renderBaked, reads.baked inner, baked]
    rfl
  refine ⟨_, rendered, fun otherVerbosity => ?_⟩
  obtain ⟨last, doesLast, lasts⟩ := Interpretation.exists_doAll_baked all Scope.immutable_empty
    unchangeable (List.forall_mem_map.mp bakeableOutside.defines)
    (List.pairwise_map.mp bakeableOutside.ordered) bakes Scope.lastsIn_empty otherVerbosity
  have performsBaked := (@doAll_iff otherVerbosity {} bakeds last).mp doesLast
  obtain ⟨result, ranAgain, resultRoot⟩ := (exists_run_iff annotatedAgain last).mpr
    (exists_perform_alike alikeAgain.symm performsBaked otherVerbosity)
  exact ⟨result, ranAgain, resultRoot ▸ lasts⟩

/-- A program with a temporary variable and a reference to it. -/
def referenceWritten : List AnnotatedToken :=
  [{ role := .identifier, literal := "t", kind := .identifier, line := 1, number := 1,
      temp := true },
    { role := .assign, literal := "=", kind := .equals, line := 1, number := 3 },
    { role := .value, literal := "1", kind := .int, line := 1, number := 4, type := some "int",
      value := some (.int 1) },
    { role := .newline, literal := "\n", kind := .newline, line := 1, number := 5 },
    { role := .identifier, literal := "x", kind := .identifier, line := 2, number := 1 },
    { role := .assign, literal := "=", kind := .equals, line := 2, number := 2 },
    { role := .lookup, literal := "t", kind := .identifier, line := 2, number := 3 },
    { role := .endOfInput, literal := "", kind := .endOfInput, line := 2, number := 4 }]

def referenceTree : Scope where
  entries := [("t", ⟨"t", .int 1, .string "int", false, true⟩),
    ("x", ⟨"x", .int 1, .string "int", false, false⟩)]

theorem runProgram_baked_reference :
    ∃ written outcome, annotateSource "t temp=1\nx=t" = .ok written ∧
      (runProgram 0 "t temp=1\nx=t").outcome = .ok outcome ∧
      (∀ token ∈ written, token.mutable = false) ∧ (∀ token ∈ written, Displayed token) ∧
      Bakeable outcome.root (statements written) ∧
      ∃ baked, renderBaked written outcome.root = .ok baked ∧ ∀ otherVerbosity, ∃ again,
        (runProgram otherVerbosity baked).outcome = .ok again ∧
          outcome.root.LastsIn again.root := by
  have read : Token.tokenize "t temp=1\nx=t" = .ok [⟨.identifier, "t", 1, 1⟩,
      ⟨.temp, "temp", 1, 3⟩, ⟨.equals, "=", 1, 7⟩, ⟨.int, "1", 1, 8⟩, ⟨.newline, "\n", 1, 9⟩,
      ⟨.identifier, "x", 2, 1⟩, ⟨.equals, "=", 2, 2⟩, ⟨.identifier, "t", 2, 3⟩,
      ⟨.endOfInput, "", 2, 4⟩] := by
    have temporary : Lexeme.scan "t temp=1\nx=t".toList =
        some (.name, ['t'], " temp=1\nx=t".toList) := rfl
    have blank : Lexeme.scan " temp=1\nx=t".toList =
        some (.blanks, [' '], "temp=1\nx=t".toList) := rfl
    have modifier : Lexeme.scan "temp=1\nx=t".toList =
        some (.name, "temp".toList, "=1\nx=t".toList) := rfl
    have equals : Lexeme.scan "=1\nx=t".toList = some (.symbol '=', ['='], "1\nx=t".toList) := rfl
    have one : Lexeme.scan "1\nx=t".toList = some (.number, ['1'], "\nx=t".toList) := rfl
    have lineFeed : Lexeme.scan "\nx=t".toList = some (.lineEnds, ['\n'], "x=t".toList) := rfl
    have name : Lexeme.scan "x=t".toList = some (.name, ['x'], "=t".toList) := rfl
    have again : Lexeme.scan "=t".toList = some (.symbol '=', ['='], ['t']) := rfl
    have reference : Lexeme.scan ['t'] = some (.name, ['t'], []) := rfl
    rw [Token.tokenize, Lexeme.cut_scanned temporary, Lexeme.cut_scanned blank,
      Lexeme.cut_scanned modifier, Lexeme.cut_scanned equals, Lexeme.cut_scanned one,
      Lexeme.cut_scanned lineFeed, Lexeme.cut_scanned name, Lexeme.cut_scanned again,
      Lexeme.cut_scanned reference, Lexeme.cut_nil]
    rfl
  have annotated : annotateSource "t temp=1\nx=t" = .ok referenceWritten := by
    rw [annotateSource, read]
    rfl
  have ran : (runProgram 0 "t temp=1\nx=t").outcome = .ok ⟨referenceTree, []⟩ := by
    rw [runProgram, annotateSource, read]
    rfl
  have immutable : ∀ token ∈ referenceWritten, token.mutable = false := by decide
  have displayed : ∀ token ∈ referenceWritten, Displayed token := by decide
  have bakeable : Bakeable referenceTree (statements referenceWritten) := by decide
  exact ⟨_, _, annotated, ran, immutable, displayed, bakeable,
    runProgram_baked annotated ran immutable displayed bakeable⟩

/-- The baked form takes a name that a statement inspects first for the one it defines.  If that one
is marked as temporary, an assignment to a variable that lasts is left out. -/
theorem runProgram_baked_inspected :
    ∃ written outcome, annotateSource "t temp ? x = 5" = .ok written ∧
      (runProgram 0 "t temp ? x = 5").outcome = .ok outcome ∧
      (∀ token ∈ written, token.mutable = false) ∧
      outcome.root.find? ["x"] = some ⟨"x", .int 5, .string "int", false, false⟩ ∧
      renderBaked written outcome.root = .ok "" ∧
      (runProgram 0 "").outcome = .ok {} ∧ Scope.find? {} ["x"] = none := by
  have read : Token.tokenize "t temp ? x = 5" = .ok [⟨.identifier, "t", 1, 1⟩,
      ⟨.temp, "temp", 1, 3⟩, ⟨.question, "?", 1, 8⟩, ⟨.identifier, "x", 1, 10⟩,
      ⟨.equals, "=", 1, 12⟩, ⟨.int, "5", 1, 14⟩, ⟨.endOfInput, "", 1, 15⟩] := by
    have inspected : Lexeme.scan "t temp ? x = 5".toList =
        some (.name, ['t'], " temp ? x = 5".toList) := rfl
    have gap : Lexeme.scan " temp ? x = 5".toList =
        some (.blanks, [' '], "temp ? x = 5".toList) := rfl
    have modifier : Lexeme.scan "temp ? x = 5".toList =
        some (.name, "temp".toList, " ? x = 5".toList) := rfl
    have blank : Lexeme.scan " ? x = 5".toList = some (.blanks, [' '], "? x = 5".toList) := rfl
    have question : Lexeme.scan "? x = 5".toList =
        some (.symbol '?', ['?'], " x = 5".toList) := rfl
    have next : Lexeme.scan " x = 5".toList = some (.blanks, [' '], "x = 5".toList) := rfl
    have name : Lexeme.scan "x = 5".toList = some (.name, ['x'], " = 5".toList) := rfl
    have behind : Lexeme.scan " = 5".toList = some (.blanks, [' '], "= 5".toList) := rfl
    have equals : Lexeme.scan "= 5".toList = some (.symbol '=', ['='], " 5".toList) := rfl
    have last : Lexeme.scan " 5".toList = some (.blanks, [' '], ['5']) := rfl
    have number : Lexeme.scan ['5'] = some (.number, ['5'], []) := rfl
    rw [Token.tokenize, Lexeme.cut_scanned inspected, Lexeme.cut_scanned gap,
      Lexeme.cut_scanned modifier, Lexeme.cut_scanned blank, Lexeme.cut_scanned question,
      Lexeme.cut_scanned next, Lexeme.cut_scanned name, Lexeme.cut_scanned behind,
      Lexeme.cut_scanned equals, Lexeme.cut_scanned last, Lexeme.cut_scanned number,
      Lexeme.cut_nil]
    rfl
  have readEmpty : Token.tokenize "" = .ok [⟨.endOfInput, "", 1, 1⟩] := by
    have nothing : "".toList = [] := rfl
    rw [Token.tokenize, nothing, Lexeme.cut_nil]
    rfl
  have annotated : ∃ written, annotateSource "t temp ? x = 5" = .ok written ∧
      (∀ token ∈ written, token.mutable = false) ∧ renderBaked written
        { entries := [("x", ⟨"x", .int 5, .string "int", false, false⟩)] } = .ok "" := by
    rw [annotateSource, read]
    exact ⟨_, rfl, by decide, rfl⟩
  obtain ⟨written, isWritten, immutable, rendered⟩ := annotated
  refine ⟨written, ⟨{ entries := [("x", ⟨"x", .int 5, .string "int", false, false⟩)] },
    [⟨1, 3, some "t", "undefined", "(nothing)"⟩]⟩, isWritten, ?_, immutable, rfl, rendered, ?_, rfl⟩
  · rw [runProgram, annotateSource, read]
    rfl
  · rw [runProgram, annotateSource, readEmpty]
    rfl

end Runs

end ParaLang
