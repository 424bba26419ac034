import ParaLang.Proofs.Annotations.Halting
import ParaLang.Proofs.Annotations.Orderly

/-! # The way to a name

Until annotation comes to a name it looks at most at the name and at the token behind it, if no `=`
stands before the name in its statement.  So all that is before the name is annotated in the same
way whichever modifiers and type follow the name. -/

namespace ParaLang.Annotations

open ParaLang.Grammar

/-! ## The statement of a token -/

/-- Whether an `=` stands in the statement in which some tokens end; `assigned` tells whether one
stands before them. -/
def assignedAfter (assigned : Bool) : List TokenKind → Bool
  | [] => assigned
  | kind :: kinds => assignedAfter (!endsStatement kind && (assigned || kind == .equals)) kinds

/-- Tokens that neither end a statement nor assign. -/
def isQuiet (kind : TokenKind) : Bool :=
  !endsStatement kind && kind != .equals

theorem isQuiet_of_inExpression {kind : TokenKind} (belongs : inExpression kind = true) :
    isQuiet kind = true := by
  cases kind <;> first | rfl | cases belongs

theorem assignedAfter_quiet {assigned : Bool} {run : List TokenKind}
    (quiet : ∀ kind ∈ run, isQuiet kind = true) (rest : List TokenKind) :
    assignedAfter assigned (run ++ rest) = assignedAfter assigned rest := by
  induction run with
  | nil => rfl
  | cons kind run inductionHypothesis =>
    have head := quiet kind (by simp)
    simp only [isQuiet, Bool.and_eq_true, Bool.not_eq_true', bne_iff_ne, ne_eq] at head
    simp only [List.cons_append, assignedAfter, head.1, Bool.not_false, Bool.true_and,
      beq_eq_false_iff_ne.mpr head.2, Bool.or_false]
    exact inductionHypothesis fun other member => quiet other (by simp [member])

theorem assignedAfter_append (assigned : Bool) (run rest : List TokenKind) :
    assignedAfter assigned (run ++ rest) = assignedAfter (assignedAfter assigned run) rest := by
  induction run generalizing assigned with
  | nil => rfl
  | cons kind run inductionHypothesis => exact inductionHypothesis _

theorem exists_end_of_assignedAfter {kinds : List TokenKind}
    (unassigned : assignedAfter true kinds = false) :
    ∃ kind ∈ kinds, endsStatement kind = true := by
  induction kinds with
  | nil => cases unassigned
  | cons kind kinds inductionHypothesis =>
    cases ends : endsStatement kind with
    | true => exact ⟨kind, by simp, ends⟩
    | false =>
      simp only [assignedAfter, ends, Bool.not_false, Bool.true_and, Bool.true_or] at unassigned
      obtain ⟨other, member, otherEnds⟩ := inductionHypothesis unassigned
      exact ⟨other, by simp [member], otherEnds⟩

/-! ## Looks ahead -/

/-- The tokens behind a name that qualify it: modifiers, a colon and a type. -/
structure Qualifying (region : List NumberedToken) : Prop where
  starts : ∃ first more, region = first :: more ∧
    (first.kind.isModifier = true ∨ first.kind = .colon)
  kinds : ∀ token ∈ region,
    token.kind.isModifier = true ∨ token.kind = .colon ∨ token.kind = .typeName

section Ahead

variable {state other : State} {passed before after region : List NumberedToken}
  {place name : NumberedToken} {count : Nat}

/-- The first token behind the name is no arrow, so the name is no segment of a longer path. -/
theorem Qualifying.noArrow (qualifying : Qualifying region) (after : List NumberedToken) :
    ∃ first more, region ++ after = first :: more ∧ first.kind ≠ .arrow := by
  obtain ⟨⟨first, more, rfl, isModifier | isColon⟩, -⟩ := qualifying
  · refine ⟨first, more ++ after, rfl, fun isArrow => ?_⟩
    rw [isArrow] at isModifier
    cases isModifier
  · exact ⟨first, more ++ after, rfl, by simp [isColon]⟩

theorem headerLength?_last (qualifying : Qualifying region) :
    headerLength? (name :: (region ++ after)) = .ok none := by
  obtain ⟨first, more, split, noArrow⟩ := qualifying.noArrow after
  rw [split]
  exact headerLength?_unlinked (by simp [noArrow]) more

/-- No header reaches the name. -/
theorem headerLength?_before (isName : name.kind = .identifier) : ∀ before : List NumberedToken,
    (∀ region after, Qualifying region →
      headerLength? (before ++ name :: (region ++ after)) = .ok none) ∨
    ∃ length, length < before.length ∧
      (∀ token ∈ before.take length, isQuiet token.kind = true) ∧
      ∀ rest, headerLength? (before ++ rest) = .ok (some length)
  | [] => .inl fun region after qualifying => headerLength?_last qualifying
  | [first] => by
    left
    intro region after qualifying
    obtain ⟨next, more, split, -⟩ := qualifying.noArrow after
    simp [headerLength?, isName, split]
  | [first, second] => by
    left
    intro region after qualifying
    have further := @headerLength?_last after region name qualifying
    simp [headerLength?, isName, further]
  | first :: second :: third :: before => by
    by_cases linked : first.kind = .identifier ∧ second.kind = .arrow
    swap
    · exact .inl fun region after _ => headerLength?_unlinked linked _
    have quiet : ∀ token ∈ [first, second], isQuiet token.kind = true := by
      simp [linked.1, linked.2, isQuiet, endsStatement]
    by_cases isBrace : third.kind = .leftBrace
    · refine .inr ⟨2, by simp, by simpa using quiet, fun rest => ?_⟩
      simp [headerLength?, linked, isBrace]
    by_cases isColon : third.kind = .colon
    · rcases before with _ | ⟨fourth, _ | ⟨fifth, before⟩⟩
      · exact .inl fun region after _ => by simp [headerLength?, linked, isColon, isName]
      · exact .inl fun region after _ => by simp [headerLength?, linked, isColon, isName]
      · by_cases isHeader : fourth.kind = .typeName ∧ fifth.kind = .leftBrace
        · refine .inr ⟨4, by simp, ?_, fun rest => ?_⟩
          · simpa [isColon, isHeader.1, isQuiet, endsStatement] using quiet
          · simp [headerLength?, linked, isColon, isHeader]
        · refine .inl fun region after _ => ?_
          by_cases isType : fourth.kind = .typeName
          · have noBrace : fifth.kind ≠ .leftBrace := fun isBrace => isHeader ⟨isType, isBrace⟩
            simp [headerLength?, linked, isColon, isType, noBrace]
          · simp [headerLength?, linked, isColon, isType]
    by_cases isFurther : third.kind = .identifier
    · rcases headerLength?_before isName (third :: before) with none_ | ⟨length, inside, more, found⟩
      · refine .inl fun region after qualifying => ?_
        have further := none_ region after qualifying
        simp only [List.cons_append] at further ⊢
        rw [headerLength?_further linked isFurther, further]
        rfl
      · refine .inr ⟨length + 2, by simpa using inside, ?_, fun rest => ?_⟩
        · simpa [linked.1, linked.2, isQuiet, endsStatement] using more
        · have further := found rest
          simp only [List.cons_append] at further ⊢
          rw [headerLength?_further linked isFurther, further]
          rfl
    · exact .inl fun region after _ => headerLength?_other isBrace isColon isFurther _

theorem nameRole_before (isName : name.kind = .identifier) (state : State) :
    ∀ (before rest more : List NumberedToken),
      nameRole state (before ++ name :: rest) = nameRole state (before ++ name :: more)
  | [], rest, more => by simp [nameRole, isName]
  | [first], rest, more => by simp [nameRole, isName]
  | first :: second :: before, rest, more => rfl

/-- A type clause in front of the name ends there. -/
theorem typeClause_before (isName : name.kind = .identifier) (state : State)
    (type : Option String) (before : List NumberedToken) :
    (∃ failure, ∀ rest, typeClause state type (before ++ name :: rest) = .error failure) ∨
    ∃ other found count, count ≤ before.length ∧
      (∀ token ∈ before.take count, isQuiet token.kind = true) ∧
      ∀ rest, typeClause state type (before ++ name :: rest) = .ok (other, found, count) := by
  induction before generalizing state type with
  | nil =>
    refine .inr ⟨state, type, 0, by simp, by simp, fun rest => ?_⟩
    exact typeClause_end (by simp [isName, TokenKind.isModifier]) (by simp [isName]) rest
  | cons token before inductionHypothesis =>
    by_cases isType : token.kind = .typeName
    · cases type with
      | some type =>
        exact .inl ⟨_, fun rest => by rw [List.cons_append, typeClause, if_pos isType]; rfl⟩
      | none =>
        rcases inductionHypothesis state (some token.literal) with
          ⟨failure, failed⟩ | ⟨other, found, count, inside, quiet, read⟩
        · refine .inl ⟨failure, fun rest => ?_⟩
          rw [List.cons_append, typeClause, if_pos isType, if_neg (by simp), failed]
          rfl
        · refine .inr ⟨other, found, count + 1, by simpa using inside, ?_, fun rest => ?_⟩
          · simpa [isType, isQuiet, endsStatement] using quiet
          · rw [List.cons_append, typeClause, if_pos isType, if_neg (by simp), read]
            rfl
    by_cases isModifier : token.kind.isModifier = true
    · cases modified : readModifier state token with
      | error failure =>
        refine .inl ⟨failure, fun rest => ?_⟩
        rw [List.cons_append, typeClause, if_neg isType, if_pos isModifier, modified]
        rfl
      | ok middle =>
        rcases inductionHypothesis middle type with
          ⟨failure, failed⟩ | ⟨other, found, count, inside, quiet, read⟩
        · refine .inl ⟨failure, fun rest => ?_⟩
          rw [List.cons_append, typeClause, if_neg isType, if_pos isModifier, modified,
            Result.ok_bind, failed]
          rfl
        · refine .inr ⟨other, found, count + 1, by simpa using inside, ?_, fun rest => ?_⟩
          · have quietToken : isQuiet token.kind = true := by
              cases kind : token.kind <;> rw [kind] at isModifier <;> first | rfl | cases isModifier
            simpa [quietToken] using quiet
          · rw [List.cons_append, typeClause, if_neg isType, if_pos isModifier, modified,
              Result.ok_bind, read]
            rfl
    · refine .inr ⟨state, type, 0, by simp, by simp, fun rest => ?_⟩
      rw [List.cons_append, typeClause, if_neg isType, if_neg isModifier]

/-- The end of a right-hand side is found in some tokens, or the search goes on behind them. -/
theorem rightHandSide_front (before : List NumberedToken) :
    (∃ failure, ∀ rest, rightHandSide (before ++ rest) = .error failure) ∨
    (∃ run terminator later, before = run ++ terminator :: later ∧
      ∀ rest, rightHandSide (before ++ rest) = .ok run) ∨
    (∀ token ∈ before, endsRightHandSide token.kind = false) ∧
      ∀ rest, rightHandSide (before ++ rest) = (before ++ ·) <$> rightHandSide rest := by
  induction before with
  | nil =>
    refine .inr (.inr ⟨by simp, fun rest => ?_⟩)
    cases read : rightHandSide rest <;> simp [read]
  | cons token before inductionHypothesis =>
    cases ends : endsRightHandSide token.kind with
    | true =>
      exact .inr (.inl ⟨[], token, before, rfl, fun rest => by
        rw [List.cons_append, rightHandSide, if_pos ends]⟩)
    | false =>
      have goesOn : ¬ endsRightHandSide token.kind = true := by simp [ends]
      by_cases isEquals : token.kind = .equals
      · exact .inl ⟨_, fun rest => by
          rw [List.cons_append, rightHandSide, if_neg goesOn, if_pos isEquals]
          rfl⟩
      have further (rest : List NumberedToken) : rightHandSide (token :: before ++ rest) = do
          return token :: (← rightHandSide (before ++ rest)) := by
        rw [List.cons_append, rightHandSide, if_neg goesOn, if_neg isEquals]
      rcases inductionHypothesis with
        ⟨failure, failed⟩ | ⟨run, terminator, later, rfl, read⟩ | ⟨inside, read⟩
      · exact .inl ⟨failure, fun rest => by rw [further, failed]; rfl⟩
      · exact .inr (.inl ⟨token :: run, terminator, later, rfl, fun rest => by
          rw [further, read]; rfl⟩)
      · refine .inr (.inr ⟨by simpa [ends] using inside, fun rest => ?_⟩)
        rw [further, read]
        cases rightHandSide rest <;> rfl

/-- An expression fails at a brace, whatever follows. -/
theorem expressionToken_brace {brace : NumberedToken} (among : brace ∈ place :: before)
    (isBrace : brace.kind = .leftBrace) :
    ∃ failure, ∀ rest, expressionToken place (before ++ rest) = .error failure := by
  cases read : expressionItems none (place :: before) with
  | error failure =>
    refine ⟨failure, fun rest => ?_⟩
    rw [expressionToken, ← List.cons_append, expressionItems_append, read]
    rfl
  | ok items =>
    have belongs := kinds_of_items read brace among
    rw [isBrace] at belongs
    cases belongs

theorem Qualifying.rightHandSide_eq (qualifying : Qualifying region)
    (after : List NumberedToken) :
    rightHandSide (region ++ after) = (region ++ ·) <$> rightHandSide after := by
  obtain ⟨-, kinds⟩ := qualifying
  induction region with
  | nil => cases read : rightHandSide after <;> simp [read]
  | cons token region inductionHypothesis =>
    have kind := kinds token (by simp)
    have goesOn : endsRightHandSide token.kind = false ∧ token.kind ≠ .equals := by
      cases actual : token.kind <;> rw [actual] at kind <;>
        simp_all [TokenKind.isModifier, endsRightHandSide]
    rw [List.cons_append, rightHandSide, if_neg (by simp [goesOn.1]), if_neg goesOn.2,
      inductionHypothesis fun other member => kinds other (by simp [member])]
    cases rightHandSide after <;> rfl

/-- A right-hand side that reaches the name goes on behind its qualifiers. -/
theorem rightHandSide_over (isName : name.kind = .identifier) (qualifying : Qualifying region)
    (read : ∀ rest, rightHandSide (before ++ rest) = (before ++ ·) <$> rightHandSide rest)
    (after : List NumberedToken) :
    rightHandSide (before ++ name :: (region ++ after)) =
      (fun run => before ++ name :: (region ++ run)) <$> rightHandSide after := by
  rw [read, rightHandSide, if_neg (by simp [isName, endsRightHandSide]), if_neg (by simp [isName]),
    qualifying.rightHandSide_eq after]
  cases rightHandSide after <;> rfl

theorem Qualifying.noArithmetic (qualifying : Qualifying region) :
    region.any (isArithmetic ·.kind) = false := by
  simp only [List.any_eq_false]
  intro token member
  have kind := qualifying.kinds token member
  cases actual : token.kind <;> rw [actual] at kind <;>
    simp_all [TokenKind.isModifier, isArithmetic, TokenKind.isOperator]

end Ahead

/-! ## Steps in front of the name -/

section Front

variable {state : State} {passed before after region other : List NumberedToken}
  {place name : NumberedToken}

/-- The kinds of some tokens. -/
abbrev kinds (tokens : List NumberedToken) : List TokenKind :=
  tokens.map NumberedToken.kind

/-- The two results are one, and a step that succeeds stays in front of the name, in a statement
that is not assigned when the name is reached. -/
def InFront (before : List NumberedToken) (first second : Result (State × Nat)) : Prop :=
  first = second ∧ ∀ next count, first = .ok (next, count) →
    count ≤ before.length ∧ assignedAfter next.assigned (kinds (before.drop count)) = false

theorem InFront.failed {failure : Failure} : InFront before (.error failure) (.error failure) :=
  ⟨rfl, fun _ _ stepped => (by cases stepped)⟩

theorem InFront.refuse {cause : Cause} {place : NumberedToken} :
    InFront before (refuse cause place) (refuse cause place) :=
  .failed

/-- A step that reads nothing ahead. -/
theorem InFront.single {result : Result State}
    (tracks : ∀ next, result = .ok next →
      assignedAfter next.assigned (kinds before) = false) :
    InFront before (do return (← result, 0)) (do return (← result, 0)) := by
  refine ⟨rfl, fun next count stepped => ?_⟩
  obtain ⟨read, rfl⟩ := single_eq_ok_iff.mp stepped
  exact ⟨Nat.zero_le _, tracks _ read⟩

theorem quiet_drop {assigned : Bool} {count : Nat}
    (quiet : ∀ token ∈ before.take count, isQuiet token.kind = true) :
    assignedAfter assigned (kinds (before.drop count)) = assignedAfter assigned (kinds before) := by
  have split := @assignedAfter_quiet assigned (kinds (before.take count))
    (List.forall_mem_map.mpr quiet) (kinds (before.drop count))
  rw [kinds, kinds, ← List.map_append, List.take_append_drop] at split
  exact split.symm

theorem inFront_readName (isName : name.kind = .identifier) (qualifying : Qualifying region)
    (otherQualifying : Qualifying other)
    (tracked : assignedAfter state.assigned (kinds before) = false) :
    InFront before (readName state passed place (before ++ name :: (region ++ after)))
      (readName state passed place (before ++ name :: (other ++ after))) := by
  have role := nameRole_before isName state before (region ++ after) (other ++ after)
  have written : InFront before
      (do return (writeName state place (← nameRole state (before ++ name :: (region ++ after))), 0))
      (do return (writeName state place (← nameRole state (before ++ name :: (other ++ after))), 0)) := by
    rw [role]
    refine ⟨rfl, fun next count stepped => ?_⟩
    obtain ⟨role, -, same⟩ := Result.bind_eq_ok_iff.mp stepped
    cases same
    obtain ⟨earlier, written⟩ := writeName_eq state place role
    exact ⟨Nat.zero_le _, by rwa [written]⟩
  simp only [readName]
  split
  · exact .refuse
  split
  · exact .refuse
  split
  · rcases headerLength?_before isName (place :: before) with none_ | ⟨length, inside, quiet, found⟩
    · have first := none_ region after qualifying
      have second := none_ other after otherQualifying
      simp only [List.cons_append] at first second
      rw [first, second]
      exact written
    · have first := found (name :: (region ++ after))
      have second := found (name :: (other ++ after))
      simp only [List.cons_append] at first second
      rw [first, second]
      refine ⟨rfl, fun next count stepped => ?_⟩
      cases stepped
      simp only [List.length_cons] at inside
      refine ⟨by omega, ?_⟩
      rw [quiet_drop, tracked]
      intro token member
      cases length with
      | zero => simp at member
      | succ length => exact quiet token (by simp at member ⊢; exact .inr member)
  · exact written

theorem inFront_readColon (isName : name.kind = .identifier)
    (tracked : assignedAfter state.assigned (kinds before) = false)
    (rest more : List NumberedToken) :
    InFront before (readColon state place (before ++ name :: rest))
      (readColon state place (before ++ name :: more)) := by
  unfold readColon
  split
  · rcases typeClause_before isName state none before with
      ⟨failure, failed⟩ | ⟨other, found, count, inside, quiet, read⟩
    · rw [failed, failed]
      exact .failed
    · rw [read, read]
      refine ⟨rfl, fun next count stepped => ?_⟩
      cases found with
      | none => cases stepped
      | some type =>
        cases stepped
        rw [← (typeClause_requalifies (read rest)).assigned] at tracked
        exact ⟨inside, (quiet_drop quiet).trans tracked⟩
  · exact .refuse

/-- Between an `=` and the statement of the name stands what ends a statement, and of that only a
brace is passed over by a right-hand side. -/
theorem exists_brace (inside : ∀ token ∈ before, endsRightHandSide token.kind = false)
    (tracked : assignedAfter true (kinds before) = false) :
    ∃ brace ∈ before, brace.kind = .leftBrace := by
  obtain ⟨kind, member, ends⟩ := exists_end_of_assignedAfter tracked
  obtain ⟨brace, among, rfl⟩ := List.mem_map.mp member
  have goesOn := inside brace among
  refine ⟨brace, among, ?_⟩
  cases kind : brace.kind <;> rw [kind] at goesOn ends <;>
    simp_all [endsRightHandSide, endsStatement]

/-- The brace that starts the statement of the name ends no right-hand side, but no expression goes
over it. -/
theorem inFront_readAssignment (isName : name.kind = .identifier)
    (qualifying : Qualifying region) (otherQualifying : Qualifying other)
    (tracked : assignedAfter true (kinds before) = false) :
    InFront before (readAssignment state place (before ++ name :: (region ++ after)))
      (readAssignment state place (before ++ name :: (other ++ after))) := by
  unfold readAssignment
  split
  · exact .refuse
  have assigns : (State.write { inheritType state place with assigned := true }
      (place.inRole .assign)).assigned = true := rfl
  simp only
  generalize State.write { inheritType state place with assigned := true }
    (place.inRole .assign) = written at assigns ⊢
  rcases rightHandSide_front before with
    ⟨failure, failed⟩ | ⟨run, terminator, later, rfl, read⟩ | ⟨inside, read⟩
  · rw [failed, failed]
    exact .failed
  · rw [read, read]
    refine ⟨rfl, fun next count stepped => ?_⟩
    cases run with
    | nil => cases stepped
    | cons first more =>
      simp only [Result.ok_bind] at stepped
      split at stepped
      · obtain ⟨token, extracted, same⟩ := Result.bind_eq_ok_iff.mp stepped
        cases same
        obtain ⟨items, itemsRead, -⟩ := Result.bind_eq_ok_iff.mp extracted
        refine ⟨by simp, ?_⟩
        rw [show (written.write token).assigned = written.assigned from rfl, assigns,
          quiet_drop fun token member => ?_]
        · exact tracked
        · have belongs := kinds_of_items itemsRead token (by simpa using member)
          exact isQuiet_of_inExpression belongs
      · cases stepped
        exact ⟨Nat.zero_le _, by rwa [assigns]⟩
  · obtain ⟨brace, among, isBrace⟩ := exists_brace inside tracked
    rw [rightHandSide_over isName qualifying read, rightHandSide_over isName otherQualifying read]
    cases rightHandSide after with
    | error failure => exact .failed
    | ok run =>
      cases before with
      | nil => cases among
      | cons first more =>
        obtain ⟨failure, failed⟩ := expressionToken_brace among isBrace
        have arithmetic {region : List NumberedToken} (qualifying : Qualifying region) :
            (first :: (more ++ name :: (region ++ run))).any (isArithmetic ·.kind) =
              (first :: (more ++ name :: run)).any (isArithmetic ·.kind) := by
          simp [qualifying.noArithmetic]
        simp only [Result.map_ok, Result.ok_bind, List.cons_append, arithmetic qualifying,
          arithmetic otherQualifying, failed]
        split
        · exact .failed
        · refine ⟨rfl, fun next count stepped => ?_⟩
          cases stepped
          exact ⟨Nat.zero_le _, by rwa [assigns]⟩

/-- A step in front of the name does not depend on what qualifies the name. -/
theorem step_inFront (isName : name.kind = .identifier) (qualifying : Qualifying region)
    (otherQualifying : Qualifying other)
    (tracked : assignedAfter state.assigned (kinds (place :: before)) = false) :
    InFront before (step state passed place (before ++ name :: (region ++ after)))
      (step state passed place (before ++ name :: (other ++ after))) := by
  have same {next : State} (assigned : next.assigned = state.assigned)
      (quiet : isQuiet place.kind = true) : assignedAfter next.assigned (kinds before) = false := by
    have passes := @assignedAfter_quiet state.assigned [place.kind] (by simpa using quiet)
      (kinds before)
    rw [assigned, ← passes]
    exact tracked
  have anew (ends : endsStatement place.kind = true) :
      assignedAfter false (kinds before) = false := by
    simpa [kinds, assignedAfter, ends] using tracked
  unfold step
  cases kind : place.kind with
  | newline =>
    refine ⟨rfl, fun next count stepped => ?_⟩
    cases stepped
    exact ⟨Nat.zero_le _, anew (by rw [kind]; rfl)⟩
  | question =>
    refine ⟨rfl, fun next count stepped => ?_⟩
    cases stepped
    exact ⟨Nat.zero_le _, same rfl (by rw [kind]; rfl)⟩
  | identifier =>
    exact inFront_readName isName qualifying otherQualifying (same rfl (by rw [kind]; rfl))
  | colon => exact inFront_readColon isName (same rfl (by rw [kind]; rfl)) _ _
  | equals =>
    have assigns : assignedAfter true (kinds before) = false := by
      simpa [kinds, assignedAfter, kind, endsStatement] using tracked
    exact inFront_readAssignment isName qualifying otherQualifying assigns
  | arrow => exact .single fun next read => same (readArrow_assigned read) (by rw [kind]; rfl)
  | muta | temp | const =>
    exact .single fun next read => same (readModifier_requalifies read).assigned (by rw [kind]; rfl)
  | int | float | string | bool | null =>
    exact .single fun next read => same (readLiteral_assigned read) (by rw [kind]; rfl)
  | leftBrace =>
    refine .single fun next read => ?_
    obtain ⟨middle, rfl⟩ := openBlock_starts read
    exact anew (by rw [kind]; rfl)
  | rightBrace =>
    refine .single fun next read => ?_
    obtain ⟨middle, rfl⟩ := closeBlock_starts read
    exact anew (by rw [kind]; rfl)
  | _ => exact .refuse

/-! ## The name -/

/-- A name with its qualifiers is refused for what is before it, or it is written. -/
theorem readName_qualified (qualifying : Qualifying region) (after : List NumberedToken)
    (unassigned : state.assigned = false) :
    readName state passed name (region ++ after) =
      if passed.head?.map NumberedToken.kind = some .identifier ∨
          (state.modifiable ∧ state.startsPath) then
        refuse (.adjacentName name.literal) name
      else if (passed.head?.map NumberedToken.kind).any TokenKind.isLiteral then
        refuse (.nameAfterValue name.literal) name
      else .ok (writeName state name .identifier, 0) := by
  have role : nameRole state (region ++ after) = .ok .identifier := by
    obtain ⟨first, more, split, noArrow⟩ := qualifying.noArrow after
    simp [split, nameRole, noArrow, unassigned]
  simp [readName, headerLength?_last qualifying, role]

theorem named_of_readName (orderly : Orderly state) (unassigned : state.assigned = false)
    (qualifying : Qualifying region) {next : State} {count : Nat}
    (read : readName state passed name (region ++ after) = .ok (next, count)) :
    Named next name ∧ count = 0 := by
  rw [readName_qualified qualifying after unassigned] at read
  split at read
  · cases read
  rename_i fits
  split at read
  · cases read
  cases read
  have fixed := orderly.unmodifiable fun both => fits (.inr both)
  have unnamed : state.named = false := by simpa [State.modifiable, unassigned] using fixed
  obtain ⟨earlier, written⟩ := writeName_eq state name .identifier
  rw [written]
  exact ⟨⟨⟨earlier, rfl⟩, by simp [State.modifiable, unassigned],
    orderly.untyped unassigned unnamed⟩, rfl⟩

/-- What qualifies the name does not matter for its reading. -/
theorem readName_alike (orderly : Orderly state) (unassigned : state.assigned = false)
    (qualifying : Qualifying region) (otherQualifying : Qualifying other)
    (after : List NumberedToken) :
    (∃ failure, ∀ behind ∈ [region, other],
      readName state passed name (behind ++ after) = .error failure) ∨
    ∃ next, Named next name ∧ ∀ behind ∈ [region, other],
      readName state passed name (behind ++ after) = .ok (next, 0) := by
  have first := @readName_qualified state passed region name qualifying after unassigned
  have second := @readName_qualified state passed other name otherQualifying after unassigned
  have same := second.trans first.symm
  simp only [List.forall_mem_cons, List.not_mem_nil, false_imp_iff, implies_true, and_true, same]
  cases read : readName state passed name (region ++ after) with
  | error failure => exact .inl ⟨failure, rfl, rfl⟩
  | ok result =>
    obtain ⟨next, count⟩ := result
    obtain ⟨named, rfl⟩ := named_of_readName orderly unassigned qualifying read
    exact .inr ⟨next, named, rfl, rfl⟩

theorem walk_fails {rest : List NumberedToken} {failure : Failure}
    (goesOn : place.kind ≠ .endOfInput) (failed : step state passed place rest = .error failure) :
    walk state passed 0 (place :: rest) = .error failure := by
  rw [walk, if_neg goesOn, failed]
  rfl

/-- The walk ends in front of the name or goes on behind it, in the same way whatever qualifies the
name. -/
theorem walk_toName (isName : name.kind = .identifier) (qualifying : Qualifying region)
    (otherQualifying : Qualifying other) (before : List NumberedToken) {state : State}
    {passed : List NumberedToken} (orderly : Orderly state)
    (tracked : assignedAfter state.assigned (kinds before) = false) :
    walk state passed 0 (before ++ name :: (region ++ after)) =
        walk state passed 0 (before ++ name :: (other ++ after)) ∨
      ∃ next, Named next name ∧
        ∀ behind ∈ [region, other],
          walk state passed 0 (before ++ name :: (behind ++ after)) =
            walk next (name :: (before.reverse ++ passed)) 0 (behind ++ after) := by
  have goesOn {place : NumberedToken} (isName : place.kind = .identifier) :
      place.kind ≠ .endOfInput := by simp [isName]
  -- by what is left in front of the name, of which a step may read several tokens
  cases before with
  | nil =>
    rcases @readName_alike state passed region other name orderly tracked qualifying
      otherQualifying after with ⟨failure, failed⟩ | ⟨next, named, read⟩
    · have fails (behind : List NumberedToken) (member : behind ∈ [region, other]) :
          walk state passed 0 (name :: (behind ++ after)) = .error failure :=
        walk_fails (goesOn isName) (by rw [step_identifier isName, failed behind member])
      left
      rw [List.nil_append, List.nil_append, fails region (by simp), fails other (by simp)]
    · exact .inr ⟨next, named, fun behind member =>
        walk_step (goesOn isName) (by rw [step_identifier isName, read behind member])⟩
  | cons place before =>
    by_cases isEnd : place.kind = .endOfInput
    · left
      rw [List.cons_append, List.cons_append, walk, walk, if_pos isEnd, if_pos isEnd]
    obtain ⟨same, inFront⟩ := @step_inFront state passed before after region other place name isName
      qualifying otherQualifying tracked
    cases stepped : step state passed place (before ++ name :: (region ++ after)) with
    | error failure =>
      left
      rw [List.cons_append, List.cons_append, walk_fails isEnd stepped,
        walk_fails isEnd (same ▸ stepped)]
    | ok result =>
      obtain ⟨next, count⟩ := result
      obtain ⟨inside, trackedNext⟩ := inFront next count stepped
      have later := @walk_toName isName qualifying otherQualifying (before.drop count) next
        ((before.take count).reverse ++ place :: passed) (orderly_step orderly stepped) trackedNext
      have onward {behind : List NumberedToken}
          (read : step state passed place (before ++ name :: (behind ++ after)) = .ok (next, count)) :
          walk state passed 0 (place :: before ++ name :: (behind ++ after)) =
            walk next ((before.take count).reverse ++ place :: passed) 0
              (before.drop count ++ name :: (behind ++ after)) := by
        rw [List.cons_append, walk_step isEnd read, walk_read, List.take_append_of_le_length inside,
          List.drop_append_of_le_length inside]
      have first := onward stepped
      have second := onward (same ▸ stepped)
      rw [first, second]
      have passes : (before.drop count).reverse ++ ((before.take count).reverse ++ place :: passed) =
          (place :: before).reverse ++ passed := by
        rw [← List.append_assoc, ← List.reverse_append, List.take_append_drop]
        simp
      rw [passes] at later
      simp only [List.forall_mem_cons, List.not_mem_nil, false_imp_iff, implies_true, and_true,
        first, second] at later ⊢
      exact later
termination_by before.length

/-! ## The loop at the name -/

open Cursor (Turns)

theorem turns_forward {tokens : List NumberedToken} {first last : State × Nat}
    (turns : Relation.ReflTransGen (Turns tokens) first last) :
    first = last ∨ first.2 < last.2 := by
  induction turns with
  | refl => exact .inl rfl
  | tail _ turned inductionHypothesis =>
    obtain ⟨_, _, _, _, _, _, _, _, onward⟩ := Cursor.turn_step turned
    right
    rcases inductionHypothesis with rfl | before <;> omega

/-- The loop that comes to the token behind the name has written the name. -/
theorem named_of_turns (isName : name.kind = .identifier) (qualifying : Qualifying region)
    (before : List NumberedToken) {state last : State} {passed : List NumberedToken}
    (orderly : Orderly state) (tracked : assignedAfter state.assigned (kinds before) = false)
    (turns : Relation.ReflTransGen
      (Turns (passed.reverse ++ (before ++ name :: (region ++ after))))
      (state, passed.length) (last, passed.length + before.length + 1)) :
    Named last name := by
  rcases turns.cases_head with same | ⟨⟨next, cursor⟩, turned, later⟩
  · have cursors := congrArg Prod.snd same
    simp only at cursors
    omega
  obtain ⟨front, place, rest, count, split, long, goesOn, stepped, onward⟩ :=
    Cursor.turn_step turned
  simp only at long onward
  obtain ⟨sameFront, sameTokens⟩ := List.append_inj split (by simpa using long.symm)
  obtain rfl : passed = front := List.reverse_inj.mp sameFront
  subst onward
  cases before with
  | nil =>
    cases sameTokens
    rw [step_identifier isName] at stepped
    obtain ⟨named, rfl⟩ := named_of_readName orderly tracked qualifying stepped
    rcases turns_forward later with same | onward
    · cases same
      exact named
    · simp at onward
  | cons first before =>
    obtain ⟨rfl, rfl⟩ := List.cons.inj sameTokens
    obtain ⟨-, inFront⟩ := @step_inFront state passed before after region region first name isName
      qualifying qualifying tracked
    obtain ⟨inside, trackedNext⟩ := inFront next count stepped
    refine @named_of_turns isName qualifying (before.drop count) next last
      ((before.take count).reverse ++ first :: passed) (orderly_step orderly stepped) trackedNext ?_
    have tokens : ((before.take count).reverse ++ first :: passed).reverse ++
        (before.drop count ++ name :: (region ++ after)) =
          passed.reverse ++ (first :: before ++ name :: (region ++ after)) := by
      rw [List.reverse_append, List.reverse_reverse, List.append_assoc, List.reverse_cons,
        ← List.append_assoc (before.take count), List.take_append_drop]
      simp
    have cursor : ((before.take count).reverse ++ first :: passed).length =
        passed.length + 1 + count := by
      simp
      omega
    have target : passed.length + 1 + count + (before.drop count).length + 1 =
        passed.length + (first :: before).length + 1 := by
      simp
      omega
    rw [tokens, cursor, target]
    exact later
termination_by before.length

end Front

end ParaLang.Annotations
