import ParaLang.Proofs.Scope.Lasting
import ParaLang.Proofs.Statement.Baking

/-! # Runs of baked statements

A program without mutable variables has its values for good, so they can be written in place of the
references to them.  What a statement writes in the tree of its program, its baked form writes in
one that only has the variables that last. -/

namespace ParaLang.Interpretation

open ParaLang.Grammar
open ParaLang.Annotations
open Scope (Keeps LastsIn)
open Statement (reference? definition? definesTemporary reference)

variable {verbosity : Nat} {root tree other : Scope}

/-! ## Values -/

section Values

variable {target : Target} {equals : NumberedToken}

theorem valueOf_expression {first : NumberedToken} {more : List NumberedToken}
    {items : List AnnotatedToken} (read : expressionItems none (first :: more) = .ok items) :
    valueOf verbosity target equals (.expression first more) root =
      (Expression.evaluate verbosity root items).outcome := by
  simp [valueOf, expressionToken_of_items read, Except.toOption, extractedToken]

theorem valueOf_literal (token : NumberedToken) :
    valueOf verbosity target equals (.single (.literal token)) root =
      .ok (readLiteralToken token).value := by
  simp [valueOf, operandTokens, valueAfter, readLiteralToken]

theorem valueOf_reference {path : Grammar.Path NumberedToken} {value : Option Value}
    (produced : valueOf verbosity target equals (.single (.reference path)) root = .ok value) :
    ∃ found, reference? root target.path.dropLast (path.map NumberedToken.token).names = some found ∧
      value = some found.value := by
  have read := @toOption_valueAfter verbosity root target (equals.inRole .assign) path
  rw [valueOf] at produced
  rw [produced, Except.toOption] at read
  obtain ⟨found, isFound, equal⟩ := Option.map_eq_some_iff.mp read.symm
  exact ⟨found, isFound, equal.symm⟩

/-- The display of a value has that value everywhere. -/
theorem valueOf_denotes {value : Value} {baked : RightHandSide NumberedToken}
    (denotes : Denotes value baked) (pastes : value.pastes = true) :
    valueOf verbosity target equals baked root = .ok (some value) := by
  cases denotes with
  | literal read =>
    rw [valueOf_literal, readLiteralToken, read]
    rfl
  | signed read same =>
    rw [valueOf_expression read]
    exact (Expression.alike_evaluate verbosity verbosity root
      (Expression.sameItems_of_essence same)).ok_iff.mp (Expression.evaluate_items pastes verbosity root)

/-- A variable that a reference finds is also found in a tree that has more, unless there is one at
the very path of the reference there. -/
theorem reference?_keeps {groups path : List String} {found : Variable} (keeps : root.Keeps tree)
    (isFound : reference? root groups path = some found) :
    reference? tree groups path = some found ∨
      ∃ nearer, root.find? path = none ∧ tree.find? path = some nearer := by
  cases here : root.find? path with
  | some entry =>
    rw [reference?_of_find? here] at isFound
    exact .inl (isFound ▸ reference?_of_find? (keeps _ _ here))
  | none =>
    cases there : tree.find? path with
    | some nearer => exact .inr ⟨nearer, rfl, rfl⟩
    | none =>
      by_cases goes : ∃ shorter, GoesOn groups shorter path
      · obtain ⟨shorter, goesOn⟩ := goes
        rw [reference?_of_goesOn here goesOn] at isFound
        exact .inl ((reference?_of_goesOn there goesOn).trans (keeps _ _ isFound))
      · rw [reference?_of_not_goesOn here goes] at isFound
        cases isFound

/-- What a right-hand side produces, its baked form produces anywhere, with values from a tree that
has the variables there were and perhaps more.  Only a reference may be led to one of the others. -/
theorem valueOf_bakes {value baked : RightHandSide NumberedToken} {produced : Option Value}
    (keeps : root.Keeps tree) (bakes : Bakes tree target.path.dropLast value baked)
    (produces : valueOf verbosity target equals value root = .ok produced)
    (otherVerbosity : Nat) (other : Scope) :
    valueOf otherVerbosity target equals baked other = .ok produced ∨
      ∃ path nearer, value = .single (.reference path) ∧
        root.find? (path.map NumberedToken.token).names = none ∧
        tree.find? (path.map NumberedToken.token).names = some nearer ∧
        valueOf otherVerbosity target equals baked other = .ok (some nearer.value) := by
  cases bakes with
  | literal =>
    rw [valueOf_literal] at produces
    exact .inl (by rw [valueOf_literal, produces])
  | unknown unknown =>
    obtain ⟨found, isFound, -⟩ := valueOf_reference produces
    rcases reference?_keeps keeps isFound with still | ⟨nearer, -, there⟩
    · rw [unknown] at still
      cases still
    · simp [reference?, there] at unknown
  | @reference path found _ isFound pastes denotes =>
    have baking := @valueOf_denotes otherVerbosity other target equals _ _ denotes pastes
    obtain ⟨first, isFirst, rfl⟩ := valueOf_reference produces
    rcases reference?_keeps keeps isFirst with still | ⟨nearer, missing, there⟩
    · rw [isFound] at still
      cases still
      exact .inl baking
    · have isNearer : found = nearer := by simpa [reference?, there] using isFound.symm
      exact .inr ⟨path, nearer, rfl, missing, there, isNearer ▸ baking⟩
  | expression read pastes readPasted same =>
    have contained : Expression.Extends root tree := fun name found isFound =>
      keeps [name] found isFound
    rw [valueOf_expression read] at produces
    rw [valueOf_expression readPasted]
    exact .inl (Expression.evaluate_paste contained pastes (Expression.sameItems_of_essence same)
      produces otherVerbosity other)

end Values

end ParaLang.Interpretation

namespace ParaLang

/-! ## Targets -/

namespace Statement

/-- The target of the `=` of a statement, if there is one. -/
def target? (statement : List AnnotatedToken) : Option Target :=
  match statement.dropWhile (·.role != .assign) with
  | [] => none
  | assign :: _ =>
    (Interpretation.targetBefore assign
      (statement.takeWhile (·.role != .assign)).reverse).toOption

/-- The path of the first name of a statement, and whether it is marked as temporary. -/
def firstName? (statement : List AnnotatedToken) : Option (List String × Bool) :=
  (definition? statement).map fun (name, path) => (path, name.temp)

/-- The first name of a statement that assigns is the one that it assigns to. -/
def DefinesTarget (statement : List AnnotatedToken) : Prop :=
  ∀ target ∈ target? statement, firstName? statement = some (target.path, target.temp)

instance (statement : List AnnotatedToken) : Decidable (DefinesTarget statement) :=
  inferInstanceAs
    (Decidable (∀ target ∈ target? statement,
      firstName? statement = some (target.path, target.temp)))

variable {tree : Scope} {statement : List AnnotatedToken} {target : Target}

theorem definesTemporary_eq (tree : Scope) (statement : List AnnotatedToken) :
    definesTemporary tree statement =
      (firstName? statement).any fun (path, temp) => temp || (tree.find? path).any (·.temp) := by
  unfold definesTemporary firstName?
  cases definition? statement <;> rfl

theorem groups_eq (statement : List AnnotatedToken) :
    groups statement = ((firstName? statement).map (·.1.dropLast)).getD [] := by
  unfold groups firstName?
  cases definition? statement <;> rfl

theorem DefinesTarget.definesTemporary_eq (defines : DefinesTarget statement)
    (isTarget : target? statement = some target) :
    definesTemporary tree statement = (target.temp || (tree.find? target.path).any (·.temp)) := by
  rw [Statement.definesTemporary_eq, defines target isTarget, Option.any_some]

theorem DefinesTarget.groups_eq (defines : DefinesTarget statement)
    (isTarget : target? statement = some target) : groups statement = target.path.dropLast := by
  rw [Statement.groups_eq, defines target isTarget]
  rfl

end Statement

namespace Interpretation

open ParaLang.Grammar
open ParaLang.Annotations
open Scope (Keeps LastsIn)
open Statement (target? DefinesTarget definesTemporary reference)

variable {verbosity : Nat} {root tree other changed : Scope}
  {first : Segment NumberedToken} {more : List (NumberedToken × Segment NumberedToken)}
  {binding : Binding NumberedToken} {definition : Definition NumberedToken}

theorem target?_bound (named : lastSegment first more = .name definition) :
    target? (statementTokens [] ⟨first, more, some binding⟩) = some (targetOf definition) := by
  have noAssign := segments_noAssign first more
  obtain ⟨front, separated, -, same⟩ := exists_front first more
  have before := targetBefore_definition (binding.equals.inRole .assign) definition
  rw [← targetBefore_append separated, ← List.reverse_append] at before
  rw [target?, statementTokens_bound, List.dropWhile_append_of_pos noAssign,
    List.dropWhile_cons_of_neg (by simp), List.takeWhile_append_of_pos noAssign,
    List.takeWhile_cons_of_neg (by simp), List.append_nil, same, named]
  simp only [segmentTokens, before]
  rfl

/-! ## Statements -/

theorem grows_of_does {statement : Statement NumberedToken}
    (does : Does verbosity root statement changed) : root.Grows changed := by
  cases does with
  | nothing => exact Scope.Grows.refl root
  | assigns _ _ assigned => exact Scope.grows_of_assign assigned

theorem grows_of_doAll {statements : List (Statement NumberedToken)}
    (all : DoAll verbosity root statements changed) : root.Grows changed := by
  induction all with
  | nil => exact Scope.Grows.refl _
  | cons does _ inductionHypothesis => exact (grows_of_does does).trans inductionHypothesis

/-- A statement that is kept does in the smaller tree what it does in the tree of its program. -/
theorem exists_does_baked {statement baked : Statement NumberedToken}
    (does : Does verbosity root statement changed) (immutable : root.Immutable)
    (keeps : changed.Keeps tree) (defines : DefinesTarget (statementTokens [] statement))
    (settled : tree.find? (reference (statementTokens [] statement)) =
      changed.find? (reference (statementTokens [] statement)))
    (kept : definesTemporary tree (statementTokens [] statement) = false)
    (bakes : BakesStatement tree (Statement.groups (statementTokens [] statement)) statement baked)
    (lasts : root.LastsIn other) (otherVerbosity : Nat) :
    ∃ last, Does otherVerbosity other baked last ∧ changed.LastsIn last := by
  have grows := grows_of_does does
  cases does with
  | nothing =>
    cases bakes
    exact ⟨other, .nothing, lasts⟩
  | @assigns first more binding definition value entry _ named produced assigned =>
    have isTarget := @target?_bound first more binding definition named
    rw [defines.groups_eq isTarget] at bakes
    rw [defines.definesTemporary_eq isTarget] at kept
    cases bakes with
    | @bound _ _ equals right bakedRight inspected bakes =>
    have fresh := immutable.fresh assigned
    have freshThere : other.find? (targetOf definition).path = none := by
      rw [lasts]
      exact congrArg (Option.filter _) fresh
    have written := Scope.find?_assign_self assigned
    have lasting : entry.temp = false := by
      have there := keeps _ _ written
      simp only [Target.assignment] at there
      simpa [there] using (Bool.or_eq_false_iff.mp kept).2
    have contained : root.Keeps tree := fun path found isFound =>
      keeps _ _ (immutable.keeps grows path found isFound)
    obtain ⟨again, producedThere, same⟩ : ∃ again,
        valueOf otherVerbosity (targetOf definition) equals bakedRight other = .ok again ∧
          (again = value ∨ again = some entry.value) := by
      rcases valueOf_bakes contained bakes produced otherVerbosity other with
        producedThere | ⟨path, nearer, rfl, missing, there, producedThere⟩
      · exact ⟨value, producedThere, .inl rfl⟩
      · rw [reference_bound, valueTokens, pathAt_append (separated_inspected inspected),
          pathAt_reference, there] at settled
        have own : (path.map NumberedToken.token).names = (targetOf definition).path := by
          by_contra distinct
          rw [Scope.find?_assign_of_ne assigned distinct, missing] at settled
          cases settled
        rw [own] at settled
        obtain rfl : nearer = entry := Option.some.inj (settled.trans written)
        exact ⟨_, producedThere, .inr rfl⟩
    obtain ⟨last, assignedThere⟩ := Scope.exists_assign_there assigned fresh freshThere same
    exact ⟨last, .assigns named producedThere assignedThere,
      Scope.lastsIn_assign lasts assigned assignedThere rfl lasting⟩

/-- A statement that is left out does nothing that lasts. -/
theorem lastsIn_dropped {statement : Statement NumberedToken}
    (does : Does verbosity root statement changed) (immutable : root.Immutable)
    (keeps : changed.Keeps tree) (defines : DefinesTarget (statementTokens [] statement))
    (dropped : definesTemporary tree (statementTokens [] statement) = true)
    (lasts : root.LastsIn other) : changed.LastsIn other := by
  cases does with
  | nothing => exact lasts
  | @assigns first more binding definition value entry _ named produced assigned =>
    have isTarget := @target?_bound first more binding definition named
    have fresh := immutable.fresh assigned
    have written := Scope.find?_assign_self assigned
    have there := keeps _ _ written
    obtain ⟨groups, name, -, writes, -⟩ := Scope.assign_ok assigned
    have sameFlag : entry.temp = (targetOf definition).temp := (writes.fresh fresh).2.2
    simp only [Target.assignment] at there
    rw [defines.definesTemporary_eq isTarget, there, ← sameFlag] at dropped
    exact Scope.lastsIn_assign_temporary lasts assigned fresh (by simpa using dropped)

/-! ## Programs -/

theorem find?_does {statement : Statement NumberedToken} {path : List String}
    (does : Does verbosity root statement changed)
    (unassigned : ∀ target ∈ target? (statementTokens [] statement), target.path ≠ path) :
    changed.find? path = root.find? path := by
  cases does with
  | nothing => rfl
  | assigns named _ assigned =>
    exact Scope.find?_assign_of_ne assigned (unassigned _ (target?_bound named)).symm

/-- What no statement assigns to stays as it is. -/
theorem find?_doAll {statements : List (Statement NumberedToken)} {path : List String}
    (all : DoAll verbosity root statements changed)
    (unassigned : ∀ statement ∈ statements,
      ∀ target ∈ target? (statementTokens [] statement), target.path ≠ path) :
    changed.find? path = root.find? path := by
  induction all with
  | nil => rfl
  | cons does _ inductionHypothesis =>
    obtain ⟨first, later⟩ := List.forall_mem_cons.mp unassigned
    rw [inductionHypothesis later, find?_does does first]

theorem immutable_of_does {statement : Statement NumberedToken} (immutable : root.Immutable)
    (does : Does verbosity root statement changed)
    (unchangeable : ∀ target ∈ target? (statementTokens [] statement), target.mutable = false) :
    changed.Immutable := by
  cases does with
  | nothing => exact immutable
  | assigns named _ assigned =>
    exact immutable.assign assigned (unchangeable _ (target?_bound named))

/-- The baked statements leave what lasts of the tree of their program. -/
theorem exists_doAll_baked {statements bakeds : List (Statement NumberedToken)}
    (all : DoAll verbosity root statements tree) (immutable : root.Immutable)
    (unchangeable : ∀ statement ∈ statements,
      ∀ target ∈ target? (statementTokens [] statement), target.mutable = false)
    (defines : ∀ statement ∈ statements, DefinesTarget (statementTokens [] statement))
    (ordered : statements.Pairwise fun earlier later =>
      definesTemporary tree (statementTokens [] earlier) = false →
        ∀ target ∈ target? (statementTokens [] later),
          target.path ≠ reference (statementTokens [] earlier))
    (bakes : List.Forall₂ (fun statement baked => BakesStatement tree
        (Statement.groups (statementTokens [] statement)) statement baked)
      (statements.filter fun statement =>
        !definesTemporary tree (statementTokens [] statement)) bakeds)
    (lasts : root.LastsIn other) (otherVerbosity : Nat) :
    ∃ last, DoAll otherVerbosity other bakeds last ∧ tree.LastsIn last := by
  -- the invariant is that the other tree has what lasts of the tree so far
  induction all generalizing other bakeds with
  | nil =>
    cases bakes
    exact ⟨other, .nil, lasts⟩
  | @cons root middle tree statement statements does later inductionHypothesis =>
    obtain ⟨fixed, fixedLater⟩ := List.forall_mem_cons.mp unchangeable
    obtain ⟨definesFirst, definesLater⟩ := List.forall_mem_cons.mp defines
    obtain ⟨inFront, orderedLater⟩ := List.pairwise_cons.mp ordered
    have still := immutable_of_does immutable does fixed
    have keeps := still.keeps (grows_of_doAll later)
    cases kept : definesTemporary tree (statementTokens [] statement) with
    | true =>
      rw [List.filter_cons_of_neg (by simp [kept])] at bakes
      exact inductionHypothesis still fixedLater definesLater orderedLater bakes
        (lastsIn_dropped does immutable keeps definesFirst kept lasts)
    | false =>
      rw [List.filter_cons_of_pos (by simp [kept])] at bakes
      cases bakes with
      | cons first others =>
        have settled := find?_doAll later fun next member target isTarget =>
          inFront next member kept target isTarget
        obtain ⟨last, doesBaked, lastsMiddle⟩ := exists_does_baked does immutable keeps definesFirst
          settled kept first lasts otherVerbosity
        obtain ⟨final, doLater, lastsFinal⟩ := inductionHypothesis still fixedLater definesLater
          orderedLater others lastsMiddle
        exact ⟨final, .cons doesBaked doLater, lastsFinal⟩

end Interpretation

end ParaLang
