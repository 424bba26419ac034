import Mathlib.Data.List.TakeWhile
import ParaLang.Proofs.Expression.Ordering

/-! # What postfix order accepts

Putting tokens into postfix order checks that each of them can stand in an expression and that the
parentheses are balanced, and nothing else.  `StillOpen` is the invariant: in front of the stack, a
run is balanced but for the parentheses that wait there, the last of them on top.  So a refusal is
reported at the first token that cannot stand where it does, or else at the last parenthesis that
is never closed. -/

namespace ParaLang.Expression

open ParaLang.Annotations (isOperand)

/-! ## Balance -/

/-- The roles of the tokens that an expression is made of. -/
def isPart : Role → Bool
  | .value | .lookup | .operator | .leftParen | .rightParen => true
  | _ => false

/-- The closing parentheses of a run, as `openings` counts the opening ones. -/
def closings (tokens : List AnnotatedToken) : Nat :=
  tokens.countP (·.role == .rightParen)

/-- No prefix closes more parentheses than it opens. -/
def Closable (tokens : List AnnotatedToken) : Prop :=
  ∀ count, closings (tokens.take count) ≤ openings (tokens.take count)

/-- The parentheses of a run are balanced. -/
structure Nested (tokens : List AnnotatedToken) : Prop where
  closable : Closable tokens
  total : openings tokens = closings tokens

section Balance

variable {tokens others : List AnnotatedToken} {token opening closing : AnnotatedToken}

@[simp] theorem openings_nil : openings [] = 0 := rfl

@[simp] theorem closings_nil : closings [] = 0 := rfl

@[simp] theorem openings_append (tokens others : List AnnotatedToken) :
    openings (tokens ++ others) = openings tokens + openings others :=
  List.countP_append ..

@[simp] theorem closings_append (tokens others : List AnnotatedToken) :
    closings (tokens ++ others) = closings tokens + closings others :=
  List.countP_append ..

theorem openings_cons (token : AnnotatedToken) (tokens : List AnnotatedToken) :
    openings (token :: tokens) = openings tokens + if token.role = .leftParen then 1 else 0 := by
  simp [openings, List.countP_cons]

theorem closings_cons (token : AnnotatedToken) (tokens : List AnnotatedToken) :
    closings (token :: tokens) = closings tokens + if token.role = .rightParen then 1 else 0 := by
  simp [closings, List.countP_cons]

theorem Closable.le (closable : Closable tokens) : closings tokens ≤ openings tokens := by
  have whole := closable tokens.length
  rwa [List.take_length] at whole

theorem Closable.append (closable : Closable tokens) (later : Closable others) :
    Closable (tokens ++ others) := by
  intro count
  have first := closable count
  have second := later (count - tokens.length)
  rw [List.take_append, openings_append, closings_append]
  omega

theorem Nested.append (nested : Nested tokens) (later : Nested others) :
    Nested (tokens ++ others) := by
  obtain ⟨closable, total⟩ := nested
  obtain ⟨laterClosable, laterTotal⟩ := later
  refine ⟨closable.append laterClosable, ?_⟩
  rw [openings_append, closings_append, total, laterTotal]

theorem nested_nil : Nested [] :=
  ⟨fun count => by simp, rfl⟩

/-- A token that is no parenthesis changes no balance. -/
theorem nested_single (noOpening : token.role ≠ .leftParen) (noClosing : token.role ≠ .rightParen) :
    Nested [token] := by
  refine ⟨fun count => ?_, by simp [openings_cons, closings_cons, noOpening, noClosing]⟩
  cases count <;> simp [openings_cons, closings_cons, noOpening, noClosing]

theorem closable_opening (isOpening : opening.role = .leftParen) (closable : Closable tokens) :
    Closable (opening :: tokens) := by
  intro count
  cases count with
  | zero => simp
  | succ count =>
    have inside := closable count
    have noClosing : opening.role ≠ .rightParen := by simp [isOpening]
    rw [List.take_succ_cons, openings_cons, closings_cons, if_pos isOpening, if_neg noClosing]
    omega

/-- A balanced run in parentheses is balanced. -/
theorem Nested.enclose (nested : Nested tokens) (isOpening : opening.role = .leftParen)
    (isClosing : closing.role = .rightParen) : Nested (opening :: (tokens ++ [closing])) := by
  have noClosing : opening.role ≠ .rightParen := by simp [isOpening]
  have noOpening : closing.role ≠ .leftParen := by simp [isClosing]
  constructor
  · intro count
    cases count with
    | zero => simp
    | succ count =>
      have inside := nested.closable count
      have atMostOne : closings ([closing].take (count - tokens.length)) ≤ 1 := by
        cases count - tokens.length <;> simp [closings_cons, isClosing]
      rw [List.take_succ_cons, openings_cons, closings_cons, List.take_append, openings_append,
        closings_append, if_pos isOpening, if_neg noClosing]
      omega
  · have total := nested.total
    simp only [openings_cons, closings_cons, openings_append, closings_append, openings_nil,
      closings_nil, if_pos isOpening, if_pos isClosing, if_neg noOpening, if_neg noClosing]
    omega

end Balance

/-! ## Open parentheses -/

/-- A run is balanced but for some parentheses that it does not close, the last one first. -/
inductive StillOpen : List AnnotatedToken → List AnnotatedToken → Prop where
  | nothing {tokens : List AnnotatedToken} (nested : Nested tokens) : StillOpen tokens []
  | opening {front back waiting : List AnnotatedToken} {token : AnnotatedToken}
      (role : token.role = .leftParen) (before : StillOpen front waiting) (nested : Nested back) :
      StillOpen (front ++ token :: back) (token :: waiting)

section StillOpen

variable {tokens others waiting : List AnnotatedToken} {token opening : AnnotatedToken}

theorem StillOpen.append (stillOpen : StillOpen tokens waiting) (nested : Nested others) :
    StillOpen (tokens ++ others) waiting := by
  cases stillOpen with
  | nothing before => exact .nothing (before.append nested)
  | opening role before inside =>
    rw [List.append_assoc, List.cons_append]
    exact .opening role before (inside.append nested)

theorem StillOpen.pushed (stillOpen : StillOpen tokens waiting) (role : token.role = .leftParen) :
    StillOpen (tokens ++ [token]) (token :: waiting) :=
  .opening role stillOpen nested_nil

/-- A closing parenthesis closes the last open one. -/
theorem StillOpen.popped (stillOpen : StillOpen tokens (opening :: waiting))
    (role : token.role = .rightParen) : StillOpen (tokens ++ [token]) waiting := by
  cases stillOpen with
  | opening isOpening before nested =>
    rw [List.append_assoc, List.cons_append]
    exact before.append (nested.enclose isOpening role)

theorem StillOpen.closable (stillOpen : StillOpen tokens waiting) : Closable tokens := by
  induction stillOpen with
  | nothing nested => exact nested.closable
  | opening role _ nested inductionHypothesis =>
    exact inductionHypothesis.append (closable_opening role nested.closable)

theorem StillOpen.nested (stillOpen : StillOpen tokens []) : Nested tokens := by
  cases stillOpen with
  | nothing nested => exact nested

end StillOpen

/-! ## Refusals -/

/-- Tokens among which postfix order finds nothing to refuse: each can stand in an expression, and
each closing parenthesis has an opening one. -/
structure Passable (tokens : List AnnotatedToken) : Prop where
  parts : ∀ token ∈ tokens, isPart token.role = true
  closable : Closable tokens

/-- Why a token between two runs is refused: it is the first one that cannot stand in an expression
or closes nothing, or else the last one that is never closed. -/
inductive Refuses (front : List AnnotatedToken) (token : AnnotatedToken)
    (back : List AnnotatedToken) : Cause → Prop where
  | arrow (before : Passable front) (role : token.role = .arrow) :
      Refuses front token back .arrowInExpression
  | stray (before : Passable front) (noPart : isPart token.role = false)
      (noArrow : token.role ≠ .arrow) : Refuses front token back (.strayInExpression token.literal)
  | closing (before : Passable front) (role : token.role = .rightParen)
      (unmatched : openings front = closings front) : Refuses front token back .unmatchedClosing
  | opening (nothingElse : Passable (front ++ token :: back)) (role : token.role = .leftParen)
      (unmatched : Closable back)
      (last : ∀ inside other behind, back = inside ++ other :: behind → other.role = .leftParen →
        ¬ Closable behind) : Refuses front token back .unmatchedOpening

section Refusals

variable {front back tokens : List AnnotatedToken} {token : AnnotatedToken} {cause : Cause}

theorem Refuses.name_eq (refuses : Refuses front token back cause) :
    cause.name = "InvalidExpression" := by
  cases refuses <;> rfl

/-- In a balanced run every opening parenthesis is closed. -/
theorem Nested.not_closable_behind (nested : Nested tokens) (role : token.role = .leftParen)
    (split : tokens = front ++ token :: back) : ¬ Closable back := by
  intro unmatched
  -- what is opened in front and here is more than what the rest could close
  have inFront := nested.closable front.length
  have behind := unmatched.le
  have total := nested.total
  have noClosing : token.role ≠ .rightParen := by simp [role]
  subst split
  rw [List.take_left] at inFront
  simp only [openings_append, closings_append, openings_cons, closings_cons, if_pos role,
    if_neg noClosing] at total
  omega

/-- A balanced run of parts holds nothing to refuse. -/
theorem Nested.not_refuses (nested : Nested (front ++ token :: back))
    (parts : ∀ other ∈ front ++ token :: back, isPart other.role = true) :
    ¬ Refuses front token back cause := by
  have part : isPart token.role = true := parts token (by simp)
  intro refuses
  cases refuses with
  | arrow _ role => simp [isPart, role] at part
  | stray _ noPart => simp [noPart] at part
  | closing _ role unmatched =>
    have upTo := nested.closable (front.length + 1)
    have noOpening : token.role ≠ .leftParen := by simp [role]
    rw [List.take_length_add_append, List.take_succ_cons, List.take_zero, openings_append,
      closings_append, openings_cons, closings_cons, if_pos role, if_neg noOpening] at upTo
    simp only [openings_nil, closings_nil] at upTo
    omega
  | opening _ role unmatched => exact nested.not_closable_behind role rfl unmatched

end Refusals

/-! ## One token -/

/-- The operators among some tokens have a rank. -/
def Ranked (tokens : List AnnotatedToken) : Prop :=
  ∀ token ∈ tokens, token.role = .operator → (rank? token.literal).isSome = true

def openingsOf (tokens : List AnnotatedToken) : List AnnotatedToken :=
  tokens.filter (·.role == .leftParen)

section Shunting

variable {previous : Option Role} {token : AnnotatedToken}
  {front stack rest added waiting : List AnnotatedToken}

theorem openingsOf_cons (role : token.role = .leftParen) (tokens : List AnnotatedToken) :
    openingsOf (token :: tokens) = token :: openingsOf tokens :=
  List.filter_cons_of_pos (by simp [role])

theorem openingsOf_cons_of_ne (role : token.role ≠ .leftParen) (tokens : List AnnotatedToken) :
    openingsOf (token :: tokens) = openingsOf tokens :=
  List.filter_cons_of_neg (by simp [role])

/-- Tokens above the topmost open parenthesis do not count. -/
theorem openingsOf_append_of_ne {above : List AnnotatedToken}
    (noneAbove : ∀ other ∈ above, other.role ≠ .leftParen) (below : List AnnotatedToken) :
    openingsOf (above ++ below) = openingsOf below := by
  have nothing : above.filter (·.role == .leftParen) = [] :=
    List.filter_eq_nil_iff.mpr fun other member => by simp [noneAbove other member]
  rw [openingsOf, List.filter_append, nothing, List.nil_append, openingsOf]

theorem exists_release {symbol : String} (own : (rank? symbol).isSome = true)
    (ranked : Ranked stack) : ∃ released below, release symbol stack = .ok (released, below) := by
  obtain ⟨ownRank, isOwn⟩ := Option.isSome_iff_exists.mp own
  induction stack with
  | nil => exact ⟨[], [], rfl⟩
  | cons top below inductionHypothesis =>
    obtain ⟨ofTop, ofBelow⟩ := List.forall_mem_cons.mp ranked
    by_cases isOperator : top.role = .operator
    · obtain ⟨topRank, isTop⟩ := Option.isSome_iff_exists.mp (ofTop isOperator)
      obtain ⟨released, left, later⟩ := inductionHypothesis ofBelow
      by_cases binds : ownRank < topRank ∨ (topRank = ownRank ∧ !groupsRight symbol)
      · refine ⟨top :: released, left, ?_⟩
        simp only [release, if_pos isOperator, rank, isTop, isOwn, Result.ok_bind, if_pos binds,
          later, Result.pure_eq_ok]
      · refine ⟨[], top :: below, ?_⟩
        simp only [release, if_pos isOperator, rank, isTop, isOwn, Result.ok_bind, if_neg binds,
          Result.pure_eq_ok]
    · exact ⟨[], top :: below, by rw [release, if_neg isOperator]⟩

/-- What can stand in an expression finds its way, if there is a parenthesis for it to close. -/
theorem exists_shunts (previous : Option Role) (part : isPart token.role = true)
    (known : Ranked [token]) (ranked : Ranked stack)
    (opened : token.role = .rightParen → openingsOf stack ≠ []) :
    ∃ added waiting, Shunts previous stack token added waiting := by
  cases role : token.role with
  | value => exact ⟨_, _, .operand (.inl role)⟩
  | lookup => exact ⟨_, _, .operand (.inr role)⟩
  | operator =>
    by_cases plus : expectsOperand previous = true ∧ token.literal = "+"
    · exact ⟨_, _, .plus role plus.1 plus.2⟩
    · by_cases minus : expectsOperand previous = true ∧ token.literal = "-"
      · exact ⟨_, _, .minus role minus.1 minus.2⟩
      · obtain ⟨released, below, releases⟩ :=
          exists_release (known token (List.mem_singleton_self token) role) ranked
        have noSign (expected : expectsOperand previous = true) :
            token.literal ≠ "+" ∧ token.literal ≠ "-" :=
          ⟨fun sign => plus ⟨expected, sign⟩, fun sign => minus ⟨expected, sign⟩⟩
        exact ⟨_, _, .binary role noSign releases⟩
  | leftParen => exact ⟨_, _, .opening role⟩
  | rightParen =>
    cases dropped : stack.dropWhile (·.role != .leftParen) with
    | nil =>
      have none := List.dropWhile_eq_nil_iff.mp dropped
      exact absurd (List.filter_eq_nil_iff.mpr fun other member => by
        simpa using none other member) (opened role)
    | cons opening below =>
      obtain ⟨isOpening, noneInside, split⟩ := splits_iff.mp ⟨rfl, dropped⟩
      exact ⟨_, _, .closing role isOpening noneInside split⟩
  | _ => simp [role, isPart] at part

theorem Shunts.ranked (shunts : Shunts previous stack token added waiting)
    (known : Ranked [token]) (ranked : Ranked stack) : Ranked waiting := by
  have ofToken := known token (List.mem_singleton_self token)
  cases shunts with
  | operand | plus => exact ranked
  | minus => exact List.forall_mem_cons.mpr ⟨fun _ => rfl, ranked⟩
  | binary _ _ releases =>
    obtain ⟨rfl, -⟩ := release_splits releases
    exact List.forall_mem_cons.mpr ⟨ofToken, (List.forall_mem_append.mp ranked).2⟩
  | opening => exact List.forall_mem_cons.mpr ⟨ofToken, ranked⟩
  | closing _ _ _ split =>
    subst split
    exact (List.forall_mem_cons.mp (List.forall_mem_append.mp ranked).2).2

theorem Shunts.part (shunts : Shunts previous stack token added waiting) :
    isPart token.role = true := by
  cases shunts with
  | operand role => rcases role with role | role <;> rw [role] <;> rfl
  | plus role | minus role | binary role | opening role | closing role => rw [role]; rfl

/-- The parentheses on the stack stay those that are still open. -/
theorem Shunts.stillOpen (shunts : Shunts previous stack token added waiting)
    (stillOpen : StillOpen front (openingsOf stack)) :
    StillOpen (front ++ [token]) (openingsOf waiting) := by
  cases shunts with
  | operand role =>
    apply stillOpen.append
    apply nested_single <;> rcases role with role | role <;> simp [role]
  | plus role => exact stillOpen.append (nested_single (by simp [role]) (by simp [role]))
  | minus role =>
    rw [openingsOf_cons_of_ne (by simp [negation])]
    exact stillOpen.append (nested_single (by simp [role]) (by simp [role]))
  | binary role _ releases =>
    obtain ⟨rfl, operators⟩ := release_splits releases
    rw [openingsOf_append_of_ne fun other member => by simp [operators other member]] at stillOpen
    rw [openingsOf_cons_of_ne (by simp [role])]
    exact stillOpen.append (nested_single (by simp [role]) (by simp [role]))
  | opening role =>
    rw [openingsOf_cons role]
    exact stillOpen.pushed role
  | closing role isOpening noneInside split =>
    subst split
    rw [openingsOf_append_of_ne noneInside, openingsOf_cons isOpening] at stillOpen
    exact stillOpen.popped role

end Shunting

/-! ## Runs -/

/-- A failure at a token of a run that is refused. -/
def RefusedIn (tokens : List AnnotatedToken) (failure : Failure) : Prop :=
  ∃ front token back cause, tokens = front ++ token :: back ∧ Refuses front token back cause ∧
    failure = .diagnostic ⟨cause, token.line, token.number, none⟩

section Runs

variable {previous : Option Role} {token : AnnotatedToken}
  {front stack rest tokens : List AnnotatedToken}

/-- A token that finds no way is refused. -/
theorem exists_refusal (previous : Option Role) (passable : Passable front)
    (stillOpen : StillOpen front (openingsOf stack))
    (stuck : isPart token.role = false ∨ (token.role = .rightParen ∧ openingsOf stack = [])) :
    ∃ cause, Refuses front token rest cause ∧
      arrange previous stack (token :: rest) = token.place.refuse cause := by
  rcases stuck with noPart | ⟨role, nothingOpen⟩
  · by_cases isArrow : token.role = .arrow
    · exact ⟨_, .arrow passable isArrow, by rw [arrange, isArrow]⟩
    · refine ⟨_, .stray passable noPart isArrow, ?_⟩
      unfold arrange
      cases role : token.role <;> simp_all [isPart]
  · have balanced : StillOpen front [] := nothingOpen ▸ stillOpen
    refine ⟨_, .closing passable role balanced.nested.total, ?_⟩
    have dropped : stack.dropWhile (·.role != .leftParen) = [] :=
      List.dropWhile_eq_nil_iff.mpr fun other member => by
        simpa using List.filter_eq_nil_iff.mp nothingOpen other member
    rw [arrange, role]
    simp only [dropped]

/-- At the end everything comes out, or the topmost parenthesis is the last one that is open. -/
theorem settles_unwind_open (passable : Passable tokens)
    (stillOpen : StillOpen tokens (openingsOf stack)) :
    Settles (RefusedIn tokens) (fun _ => Nested tokens) (unwind stack) := by
  induction stack with
  | nil => exact stillOpen.nested
  | cons top below inductionHypothesis =>
    unfold unwind
    split
    · next isOpening =>
      rw [openingsOf_cons isOpening] at stillOpen
      cases stillOpen with
      | @opening front back waiting token role before nested =>
        refine ⟨front, top, back, _, rfl, .opening passable role nested.closable ?_, rfl⟩
        intro inside other behind split isOther
        exact nested.not_closable_behind isOther split
    · next noOpening =>
      rw [openingsOf_cons_of_ne noOpening] at stillOpen
      exact (inductionHypothesis stillOpen).bind fun _ nested => nested

/-- A run behind some tokens is accepted if the whole is balanced, and refused at one of its tokens
if it is not. -/
theorem settles_arrange_open (passable : Passable front)
    (stillOpen : StillOpen front (openingsOf stack)) (ranked : Ranked stack) (known : Ranked tokens)
    (previous : Option Role) :
    Settles (RefusedIn (front ++ tokens))
      (fun _ => Passable (front ++ tokens) ∧ Nested (front ++ tokens))
      (arrange previous stack tokens) := by
  -- the invariant about the stack moves on with the tokens in front
  induction tokens generalizing front stack previous with
  | nil =>
    rw [List.append_nil, arrange]
    exact (settles_unwind_open passable stillOpen).mono fun _ nested => ⟨passable, nested⟩
  | cons token rest inductionHypothesis =>
    obtain ⟨ofToken, ofRest⟩ := List.forall_mem_cons.mp known
    have knownToken : Ranked [token] := List.forall_mem_singleton.mpr ofToken
    by_cases stuck : isPart token.role = false ∨ (token.role = .rightParen ∧ openingsOf stack = [])
    · obtain ⟨cause, refuses, refused⟩ := exists_refusal previous passable stillOpen stuck
      rw [refused]
      exact ⟨front, token, rest, cause, rfl, refuses, rfl⟩
    · obtain ⟨part, opened⟩ := not_or.mp stuck
      obtain ⟨added, waiting, shunts⟩ := exists_shunts previous (by simpa using part) knownToken
        ranked fun role nothingOpen => opened ⟨role, nothingOpen⟩
      have moved := shunts.stillOpen stillOpen
      have passableToken : Passable (front ++ [token]) :=
        ⟨List.forall_mem_append.mpr
          ⟨passable.parts, List.forall_mem_singleton.mpr shunts.part⟩, moved.closable⟩
      have later := inductionHypothesis passableToken moved (shunts.ranked knownToken ranked) ofRest
        (some token.role)
      rw [List.append_assoc, List.singleton_append] at later
      rw [arrange_of_shunts shunts]
      exact later.bind fun _ holds => holds

end Runs

/-! ## Whole runs -/

/-- The symbols of the operators of the language. -/
def operatorSymbols : List String := ["+", "-", "*", "/", "%", "^"]

theorem ranked_of_symbols {tokens : List AnnotatedToken}
    (known : ∀ token ∈ tokens, token.role = .operator → token.literal ∈ operatorSymbols) :
    Ranked tokens := by
  have all : ∀ symbol ∈ operatorSymbols, (rank? symbol).isSome = true := by decide
  exact fun token member role => all _ (known token member role)

/-- A run has a postfix order exactly if its tokens can stand in an expression and its parentheses
are balanced.  The operands come out in their order and each operator once, a sign `+` not at all
and a sign `-` as a negation.  Otherwise the expression is invalid at the first token that cannot
stand where it does, or else at the last parenthesis that is never closed. -/
theorem toPostfix_balances {tokens : List AnnotatedToken}
    (known : ∀ token ∈ tokens, token.role = .operator → token.literal ∈ operatorSymbols) :
    ((∃ output, toPostfix tokens = .ok output) ↔
      (∀ token ∈ tokens, isPart token.role = true) ∧ Nested tokens) ∧
    (∀ output, toPostfix tokens = .ok output →
      operandsOf output = operandsOf tokens ∧
      (operatorsOf output).Perm (applied none tokens) ∧
      ∀ token ∈ output, isOperand token.role = true ∨ token.role = .operator) ∧
    ∀ failure, toPostfix tokens = .error failure →
      ∃ front token back cause, tokens = front ++ token :: back ∧
        Refuses front token back cause ∧ cause.name = "InvalidExpression" ∧
        failure = .diagnostic ⟨cause, token.line, token.number, none⟩ := by
  have settles : Settles (RefusedIn tokens) (fun _ => Passable tokens ∧ Nested tokens)
      (toPostfix tokens) :=
    @settles_arrange_open [] [] tokens ⟨by simp, nested_nil.closable⟩ (.nothing nested_nil)
      (by simp [Ranked]) (ranked_of_symbols known) none
  refine ⟨⟨?_, ?_⟩, fun output arranged => ?_, fun failure refused => ?_⟩
  · rintro ⟨output, arranged⟩
    obtain ⟨passable, nested⟩ := settles.of_ok arranged
    exact ⟨passable.parts, nested⟩
  · rintro ⟨parts, nested⟩
    cases arranged : toPostfix tokens with
    | ok output => exact ⟨output, rfl⟩
    | error failure =>
      obtain ⟨front, token, back, cause, rfl, refuses, -⟩ := settles.of_error arranged
      exact absurd refuses (nested.not_refuses parts)
  · obtain ⟨operands, operators, nothingElse⟩ := comesOut arranged (by simp)
    exact ⟨operands, operators, nothingElse⟩
  · obtain ⟨front, token, back, cause, split, refuses, isFailure⟩ := settles.of_error refused
    exact ⟨front, token, back, cause, split, refuses, refuses.name_eq, isFailure⟩

/-- The run `-(+x*2)` applies a negation and a product. -/
theorem toPostfix_balances_signs :
    let minus : AnnotatedToken :=
      { role := .operator, literal := "-", kind := .minus, line := 1, number := 3 }
    let opening : AnnotatedToken :=
      { role := .leftParen, literal := "(", kind := .leftParen, line := 1, number := 4 }
    let plus : AnnotatedToken :=
      { role := .operator, literal := "+", kind := .plus, line := 1, number := 5 }
    let name : AnnotatedToken :=
      { role := .lookup, literal := "x", kind := .identifier, line := 1, number := 6 }
    let times : AnnotatedToken :=
      { role := .operator, literal := "*", kind := .star, line := 1, number := 7 }
    let two : AnnotatedToken :=
      { role := .value, literal := "2", kind := .int, line := 1, number := 8,
        value := some (.int 2) }
    let closing : AnnotatedToken :=
      { role := .rightParen, literal := ")", kind := .rightParen, line := 1, number := 9 }
    let run := [minus, opening, plus, name, times, two, closing]
    (∀ token ∈ run, token.role = .operator → token.literal ∈ operatorSymbols) ∧ Nested run ∧
      ∃ output, toPostfix run = .ok output ∧ operandsOf output = [name, two] ∧
        (operatorsOf output).Perm [negation minus, times] := by
  intro minus opening plus name times two closing run
  have known : ∀ token ∈ run, token.role = .operator → token.literal ∈ operatorSymbols := by decide
  have arranged : toPostfix run = .ok [name, two, times, negation minus] := rfl
  have nested : Nested run := ((toPostfix_balances known).1.mp ⟨_, arranged⟩).2
  obtain ⟨operands, operators, -⟩ := (toPostfix_balances known).2.1 _ arranged
  exact ⟨known, nested, _, arranged, operands, operators⟩

end ParaLang.Expression
