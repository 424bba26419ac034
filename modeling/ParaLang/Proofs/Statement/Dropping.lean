import ParaLang.Proofs.Interpretation.Baking
import ParaLang.Proofs.Interpretation.Exchange
import ParaLang.Proofs.Statement.BakedLines

/-! # What the baked form leaves out

The baked form looks for the name that a statement defines from its front, a run looks for the
target of an `=` from there backwards.  As long as a single name stands in front of the `=` both
come to the same, and the statement is left out if that name is marked as temporary or stands for a
variable that is temporary in the tree. -/

namespace ParaLang

namespace Interpretation

variable {verbosity : Nat} {state final : State} {passed rest : List AnnotatedToken}
  {assign : AnnotatedToken} {target : Target}

/-! ## Targets of a run -/

/-- What has been assigned is found at the end of the run. -/
theorem exists_found {value : Option Value} {entry : Variable} {changed : Scope}
    (assigned : state.root.assign (target.assignment value) = .ok (entry, changed))
    {next : State} (isNext : next.root = changed)
    (ends : Point.ending verbosity ⟨passed, next, rest⟩ = .ok final) :
    ∃ found, final.root.find? target.path = some found := by
  obtain ⟨all, leads⟩ := leads_to_end ends
  have grows : next.root.Grows final.root := grows_of_leads leads
  have written := Scope.find?_assign_self assigned
  rw [← isNext] at written
  obtain ⟨found, isFound, -⟩ := grows.keepsVariables _ _ written
  exact ⟨found, isFound⟩

/-- An expression is assigned to the target that waits for it. -/
theorem exists_found_of_waiting {token : AnnotatedToken} (isExpression : token.role = .expression)
    (waits : state.pending = some target)
    (ends : Point.ending verbosity ⟨passed, state, token :: rest⟩ = .ok final) :
    ∃ found, final.root.find? target.path = some found := by
  simp only [Point.ending, walk, Traced.outcome_bind] at ends
  obtain ⟨next, stepped, goesOn⟩ := Result.bind_eq_ok_iff.mp ends
  cases effect_of_step stepped with
  | nothing quiet => exact absurd isExpression quiet
  | waits isAssign => simp [isExpression] at isAssign
  | inspects isInspect => simp [isExpression] at isInspect
  | assigns assigns assigned =>
    cases assigns with
    | direct isAssign => simp [isExpression] at isAssign
    | evaluated _ waiting =>
      obtain rfl := Option.some.inj (waits.symm.trans waiting)
      exact exists_found assigned rfl goesOn

/-- Each `=` of a run that ends well has a target, and the variable is there at the end. -/
theorem exists_target (isAssign : assign.role = .assign)
    (ends : Point.ending verbosity ⟨passed, state, assign :: rest⟩ = .ok final) :
    ∃ target found, targetBefore assign passed = .ok target ∧
      final.root.find? target.path = some found := by
  simp only [Point.ending, walk, Traced.outcome_bind] at ends
  obtain ⟨next, stepped, goesOn⟩ := Result.bind_eq_ok_iff.mp ends
  rw [outcome_step_assign isAssign] at stepped
  obtain ⟨target, aims, stepped⟩ := Result.bind_eq_ok_iff.mp stepped
  refine ⟨target, ?_⟩
  by_cases follows : rest.head?.any (·.role == .expression) = true
  · rw [if_pos follows] at stepped
    cases stepped
    cases rest with
    | nil => cases follows
    | cons token rest =>
      have isExpression : token.role = .expression := by simpa using follows
      obtain ⟨found, isFound⟩ := exists_found_of_waiting isExpression rfl goesOn
      exact ⟨found, aims, isFound⟩
  · rw [if_neg follows] at stepped
    obtain ⟨value, -, committed⟩ := Result.bind_eq_ok_iff.mp stepped
    obtain ⟨entry, changed, assigned, rfl⟩ := commit_ok committed
    obtain ⟨found, isFound⟩ := exists_found assigned rfl goesOn
    exact ⟨found, aims, isFound⟩

end Interpretation

namespace Statement

variable {before after outer : List AnnotatedToken} {assign : AnnotatedToken} {target : Target}

/-! ## The name of a statement -/

/-- A single name in front of the `=` is found from the front and from the `=` backwards. -/
theorem firstName?_of_single
    (aims : Interpretation.targetBefore assign (before.reverse ++ outer) = .ok target)
    (apart : Separated outer) (single : before.countP (·.role == .identifier) = 1) :
    firstName? (before ++ assign :: after) = some (target.path, target.temp) := by
  rw [Interpretation.targetBefore_append apart] at aims
  obtain ⟨clause, name, front, passed, isName, -, path, -, temp⟩ :=
    Interpretation.targetBefore_ok aims
  have split : before = front.reverse ++ name :: clause.reverse := by
    rw [← List.reverse_reverse before, passed]
    simp
  subst split
  have noName : ∀ token ∈ front.reverse, (token.role != .identifier) = true := by
    rw [List.countP_append, List.countP_cons_of_pos (by simp [isName])] at single
    have none : front.reverse.countP (·.role == .identifier) = 0 := by omega
    simpa using List.countP_eq_zero.mp none
  have found : (front.reverse ++ name :: clause.reverse ++ assign :: after).takeWhile
      (·.role != .identifier) = front.reverse := by
    rw [List.append_assoc, List.takeWhile_append_of_pos noName, List.cons_append,
      List.takeWhile_cons_of_neg (by simp [isName]), List.append_nil]
  rw [firstName?, definition?, found]
  simp [path, temp]

/-! ## Baked programs -/

/-- The statements that the baked form keeps. -/
def kept (tree : Scope) (written : List AnnotatedToken) : List (List AnnotatedToken) :=
  (statements written).filter fun statement => !definesTemporary tree statement

/-- What the baked form of a program has and what it leaves out: the statements that are kept have a
line each, in their order.  Each `=` has a target, whose variable is in the tree; if a single name
stands in front of the `=`, the statement is left out for the mark of that name or for that of the
variable, and for nothing else. -/
structure LeavesOutTemporary (written : List AnnotatedToken) (tree : Scope)
    (lines : List String) : Prop where
  rendered : renderBaked written tree = .ok (Text.unlines lines)
  inOrder : List.Forall₂ (fun statement line => bake tree statement = .ok line ∧ Text.OneLine line)
    (kept tree written) lines
  leftOut : ∀ before assign after, before ++ assign :: after ∈ statements written →
    assign.role = .assign → ∃ earlier later target found,
      StandsIn written earlier (before ++ assign :: after) later ∧
      Interpretation.targetBefore assign (earlier ++ before).reverse = .ok target ∧
      tree.find? target.path = some found ∧
      (before.countP (·.role == .identifier) = 1 →
        (before ++ assign :: after ∉ kept tree written ↔ target.temp = true ∨ found.temp = true))

end Statement

/-! ## A mark on a variable that lasts -/

/-- A program that marks a variable as temporary when it assigns to it again. -/
def remarkedWritten : List AnnotatedToken :=
  [{ role := .identifier, literal := "x", kind := .identifier, line := 1, number := 1,
      mutable := true },
    { role := .assign, literal := "=", kind := .equals, line := 1, number := 3 },
    { role := .value, literal := "1", kind := .int, line := 1, number := 4, type := some "int",
      value := some (.int 1) },
    { role := .newline, literal := "\n", kind := .newline, line := 1, number := 5 },
    { role := .identifier, literal := "x", kind := .identifier, line := 2, number := 1,
      temp := true },
    { role := .assign, literal := "=", kind := .equals, line := 2, number := 3 },
    { role := .value, literal := "2", kind := .int, line := 2, number := 4, type := some "int",
      value := some (.int 2) },
    { role := .endOfInput, literal := "", kind := .endOfInput, line := 2, number := 5 }]

/-- The mark of the definition stays, so the variable is not temporary. -/
def remarkedTree : Scope where
  entries := [("x", ⟨"x", .int 2, .string "int", true, false⟩)]

theorem tokenize_remarked : Token.tokenize "x muta=1\nx temp=2" = .ok [⟨.identifier, "x", 1, 1⟩,
    ⟨.muta, "muta", 1, 3⟩, ⟨.equals, "=", 1, 7⟩, ⟨.int, "1", 1, 8⟩, ⟨.newline, "\n", 1, 9⟩,
    ⟨.identifier, "x", 2, 1⟩, ⟨.temp, "temp", 2, 3⟩, ⟨.equals, "=", 2, 7⟩, ⟨.int, "2", 2, 8⟩,
    ⟨.endOfInput, "", 2, 9⟩] := by
  have first : Lexeme.scan "x muta=1\nx temp=2".toList =
      some (.name, ['x'], " muta=1\nx temp=2".toList) := rfl
  have gap : Lexeme.scan " muta=1\nx temp=2".toList =
      some (.blanks, [' '], "muta=1\nx temp=2".toList) := rfl
  have mutable : Lexeme.scan "muta=1\nx temp=2".toList =
      some (.name, "muta".toList, "=1\nx temp=2".toList) := rfl
  have equals : Lexeme.scan "=1\nx temp=2".toList =
      some (.symbol '=', ['='], "1\nx temp=2".toList) := rfl
  have one : Lexeme.scan "1\nx temp=2".toList =
      some (.number, ['1'], "\nx temp=2".toList) := rfl
  have lineFeed : Lexeme.scan "\nx temp=2".toList =
      some (.lineEnds, ['\n'], "x temp=2".toList) := rfl
  have name : Lexeme.scan "x temp=2".toList = some (.name, ['x'], " temp=2".toList) := rfl
  have blank : Lexeme.scan " temp=2".toList = some (.blanks, [' '], "temp=2".toList) := rfl
  have temporary : Lexeme.scan "temp=2".toList = some (.name, "temp".toList, "=2".toList) := rfl
  have again : Lexeme.scan "=2".toList = some (.symbol '=', ['='], ['2']) := rfl
  have two : Lexeme.scan ['2'] = some (.number, ['2'], []) := rfl
  rw [Token.tokenize, Lexeme.cut_scanned first, Lexeme.cut_scanned gap,
    Lexeme.cut_scanned mutable, Lexeme.cut_scanned equals, Lexeme.cut_scanned one,
    Lexeme.cut_scanned lineFeed, Lexeme.cut_scanned name, Lexeme.cut_scanned blank,
    Lexeme.cut_scanned temporary, Lexeme.cut_scanned again, Lexeme.cut_scanned two,
    Lexeme.cut_nil]
  rfl

theorem annotateSource_remarked :
    annotateSource "x muta=1\nx temp=2" = .ok remarkedWritten := by
  rw [annotateSource, tokenize_remarked]
  rfl

theorem runProgram_remarked :
    (runProgram 0 "x muta=1\nx temp=2").outcome = .ok ⟨remarkedTree, []⟩ := by
  rw [runProgram, annotateSource, tokenize_remarked]
  rfl

/-! ## The baked form -/

open Statement (LeavesOutTemporary)

variable {source : String} {written : List AnnotatedToken} {outcome : Outcome} {verbosity : Nat}

/-- A program that runs assigns to a target at each of its `=`. -/
theorem exists_target_of_run {front rest : List AnnotatedToken} {assign : AnnotatedToken}
    (annotated : annotateSource source = .ok written)
    (ran : (runProgram verbosity source).outcome = .ok outcome)
    (split : written = front ++ assign :: rest) (isAssign : assign.role = .assign) :
    ∃ target found, Interpretation.targetBefore assign front.reverse = .ok target ∧
      outcome.root.find? target.path = some found := by
  simp only [runProgram, Traced.outcome_bind, Traced.outcome_lift, annotated, Result.ok_bind,
    interpret_eq_ok_iff] at ran
  obtain ⟨final, walked, rfl⟩ := ran
  have ends : Interpretation.Point.ending verbosity ⟨[], {}, front ++ assign :: rest⟩ =
      .ok final := by
    rw [← split]
    exact walked
  obtain ⟨state, leads⟩ := Interpretation.leads_to_token ends
  rw [Interpretation.ending_of_leads leads, List.append_nil] at ends
  exact Interpretation.exists_target isAssign ends

/-- The baked form of a program that runs leaves out the definitions of temporary variables. -/
theorem renderBaked_leaves_out (annotated : annotateSource source = .ok written)
    (ran : (runProgram verbosity source).outcome = .ok outcome) :
    ∃ lines, LeavesOutTemporary written outcome.root lines := by
  obtain ⟨lines, rendered, inOrder⟩ := exists_renderBaked annotated outcome.root
  refine ⟨lines, rendered, inOrder, ?_⟩
  intro before assign after member isAssign
  obtain ⟨earlier, later, stands⟩ := exists_standsIn member
  have split : written = (earlier ++ before) ++ assign :: (after ++ later) := by
    rw [stands.split]
    simp
  obtain ⟨target, found, aims, isFound⟩ := exists_target_of_run annotated ran split isAssign
  refine ⟨earlier, later, target, found, stands, aims, isFound, fun single => ?_⟩
  rw [List.reverse_append] at aims
  have named : Statement.firstName? (before ++ assign :: after) =
      some (target.path, target.temp) :=
    Statement.firstName?_of_single aims stands.apart single
  have kept : before ++ assign :: after ∉ Statement.kept outcome.root written ↔
      Statement.definesTemporary outcome.root (before ++ assign :: after) = true := by
    simp [Statement.kept, member]
  rw [kept, Statement.definesTemporary_eq, named]
  simp [isFound]

theorem renderBaked_leaves_out_remarked :
    ∃ written outcome, annotateSource "x muta=1\nx temp=2" = .ok written ∧
      (runProgram 0 "x muta=1\nx temp=2").outcome = .ok outcome ∧
      ∃ lines, LeavesOutTemporary written outcome.root lines :=
  ⟨_, _, annotateSource_remarked, runProgram_remarked,
    renderBaked_leaves_out annotateSource_remarked runProgram_remarked⟩

/-- A statement is left out for the mark of its name, even if the variable that it assigns to has
none in the tree. -/
theorem renderBaked_drops_lasting :
    ∃ written outcome, annotateSource "x muta=1\nx temp=2" = .ok written ∧
      (runProgram 0 "x muta=1\nx temp=2").outcome = .ok outcome ∧
      renderBaked written outcome.root = .ok "x muta = 1\n" ∧
      ∃ earlier before assign after later target found,
        before ++ assign :: after ∈ statements written ∧ assign.role = .assign ∧
        StandsIn written earlier (before ++ assign :: after) later ∧
        Interpretation.targetBefore assign (earlier ++ before).reverse = .ok target ∧
        outcome.root.find? target.path = some found ∧ found.temp = false ∧
        before ++ assign :: after ∉ Statement.kept outcome.root written := by
  refine ⟨_, _, annotateSource_remarked, runProgram_remarked, rfl, remarkedWritten.take 4,
    (remarkedWritten.drop 4).take 1, remarkedWritten[5], (remarkedWritten.drop 6).take 1,
    remarkedWritten.drop 7, _, _, ?_, rfl, ⟨rfl, separated_cons rfl, by decide⟩, rfl, rfl, rfl, ?_⟩
  · exact List.mem_cons_of_mem _ (List.mem_cons_self ..)
  · intro keeps
    have lasts := (List.mem_filter.mp keeps).2
    cases lasts

end ParaLang
