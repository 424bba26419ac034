import ParaLang.Proofs.Annotations.Origins

/-! # Annotation by index

The walk can be seen as a loop that moves a cursor over the indexes of a list.  It looks around the
cursor, and a look at an index where there is no token, in front of the list or behind it, is a
fault.  The loop does what the walk does, and each turn of it takes the cursor to a later token. -/

namespace ParaLang.Annotations

namespace Cursor

/-! ## Reading by index -/

section Loop

variable (tokens : List NumberedToken)

/-- The token at an index, which must be one of the list. -/
def tokenAt (index : Int) : Result NumberedToken :=
  if index < 0 then pastTheEnd
  else match tokens[index.toNat]? with
    | some token => .ok token
    | none => pastTheEnd

/-- Whether the tokens in front of an index have the given kinds, the nearest first. -/
def precededBy (index : Int) : List TokenKind → Result Bool
  | [] => .ok true
  | kind :: kinds => do
    if (← tokenAt tokens (index - 1)).kind = kind then precededBy (index - 1) kinds
    else return false

/-- The same where there may be too few tokens in front. -/
def follows (index : Nat) (kinds : List TokenKind) : Result Bool :=
  if kinds.length ≤ index then precededBy tokens index kinds else .ok false

def previousKind? (cursor : Nat) : Result (Option TokenKind) :=
  if 0 < cursor then do return some (← tokenAt tokens (cursor - 1 : Int)).kind
  else .ok none

/-! ## Headers -/

/-- What the token behind a name and its arrow says about the header: an answer, or the index to go
on at. -/
def behindLink (index : Nat) : Result (Option Nat ⊕ Nat) := do
  match (← tokenAt tokens ↑(index + 2)).kind with
  | .leftBrace => return .inl (some (index + 2))
  | .colon =>
    if (← tokenAt tokens ↑(index + 3)).kind = .typeName then
      if (← tokenAt tokens ↑(index + 4)).kind = .leftBrace then
        return .inl (some (index + 4))
      else return .inl none
    else return .inl none
  | .identifier => return .inr (index + 2)
  | _ => return .inl none

/-- One turn of the search for the brace of a header. -/
def headerTurn (index : Nat) : Result (Option Nat ⊕ Nat) := do
  if (← tokenAt tokens index).kind = .identifier then
    if (← tokenAt tokens ↑(index + 1)).kind = .arrow then behindLink tokens index
    else return .inl none
  else return .inl none

theorem lt_of_tokenAt {tokens : List NumberedToken} {index : Nat} {token : NumberedToken}
    (read : tokenAt tokens index = .ok token) : index < tokens.length := by
  unfold tokenAt at read
  rw [if_neg (by omega)] at read
  split at read
  · rename_i found
    simpa using (List.getElem?_eq_some_iff.mp found).1
  · cases read

theorem behindLink_forward {tokens : List NumberedToken} {index next : Nat}
    (linked : behindLink tokens index = .ok (.inr next)) :
    index < next ∧ next < tokens.length := by
  simp only [behindLink, Result.bind_eq_ok_iff] at linked
  obtain ⟨after, read, linked⟩ := linked
  split at linked
  · cases linked
  · simp only [Result.bind_eq_ok_iff] at linked
    obtain ⟨type, -, linked⟩ := linked
    split at linked
    · simp only [Result.bind_eq_ok_iff] at linked
      obtain ⟨brace, -, linked⟩ := linked
      split at linked <;> cases linked
    · cases linked
  · cases linked
    exact ⟨by omega, lt_of_tokenAt read⟩
  · cases linked

/-- A turn looks at the token at which the search goes on. -/
theorem headerTurn_forward {tokens : List NumberedToken} {index next : Nat}
    (turned : headerTurn tokens index = .ok (.inr next)) :
    index < next ∧ next < tokens.length := by
  simp only [headerTurn, Result.bind_eq_ok_iff] at turned
  obtain ⟨name, -, turned⟩ := turned
  split at turned
  · simp only [Result.bind_eq_ok_iff] at turned
    obtain ⟨arrow, -, turned⟩ := turned
    split at turned
    · exact behindLink_forward turned
    · cases turned
  · cases turned

/-- The index of the brace, if a header starts at the index. -/
def headerBrace? (index : Nat) : Result (Option Nat) :=
  match _turned : headerTurn tokens index with
  | .error failure => .error failure
  | .ok (.inl answer) => .ok answer
  | .ok (.inr next) => headerBrace? next
termination_by tokens.length - index
decreasing_by
  have forward := headerTurn_forward _turned
  omega

/-- The names of a path that ends at an index, innermost first. -/
def pathNames : Nat → Result (List String)
  | index + 2 => do
    let name ← tokenAt tokens ↑(index + 2)
    if ← follows tokens (index + 2) [.arrow, .identifier] then
      return name.literal :: (← pathNames index)
    else return [name.literal]
  | index => do return [(← tokenAt tokens index).literal]

def headerBefore? (cursor : Nat) : Result (Option (List String × Option String)) := do
  if ← follows tokens cursor [.typeName, .colon, .arrow, .identifier] then
    return some (← pathNames tokens (cursor - 4), (← tokenAt tokens (cursor - 1 : Int)).literal)
  else if ← follows tokens cursor [.arrow, .identifier] then
    return some (← pathNames tokens (cursor - 2), none)
  else return none

def openBlock (state : State) (cursor : Nat) (brace : NumberedToken) : Result State := do
  match ← headerBefore? tokens cursor with
  | none => refuse .headlessBlock brace
  | some (names, memberType) =>
    let written := { brace.inRole .blockOpen with
      literal := formatPath names.reverse, type := memberType }
    return ({ state with frames := framesOf memberType names ++ state.frames }.write
      written).newStatement

/-! ## Names, types and values -/

def nameRole (state : State) (cursor : Nat) : Result Role := do
  let next ← tokenAt tokens ↑(cursor + 1)
  if next.kind = .arrow then
    if (← tokenAt tokens ↑(cursor + 2)).kind = .identifier then return .group
    else refuse .arrowWithoutName next
  else return if state.assigned then .lookup else .identifier

/-- Handles a name; the second result is the index where the loop goes on, as in all that follows. -/
def readName (state : State) (cursor : Nat) (place : NumberedToken) : Result (State × Nat) := do
  let previous ← previousKind? tokens cursor
  if previous = some .identifier ∨ (state.modifiable ∧ state.startsPath) then
    refuse (.adjacentName place.literal) place
  else if previous.any TokenKind.isLiteral then
    refuse (.nameAfterValue place.literal) place
  else
    let brace? ←
      if previous.all endsStatement && !state.assigned then headerBrace? tokens cursor
      else pure none
    match brace? with
    | some brace => return (state, brace)
    | none => return (writeName state place (← nameRole tokens state cursor), cursor + 1)

/-- The modifiers and the type from an index on, and the index behind them. -/
def typeClause (state : State) (type : Option String) (index : Nat) :
    Result (State × Option String × Nat) :=
  match _read : tokenAt tokens index with
  | .error failure => .error failure
  | .ok place =>
    if place.kind = .typeName then
      if type.isSome then refuse .secondType place
      else typeClause state (some place.literal) (index + 1)
    else if place.kind.isModifier then do
      typeClause (← readModifier state place) type (index + 1)
    else .ok (state, type, index)
termination_by tokens.length - index
decreasing_by all_goals
  have inside := lt_of_tokenAt _read
  omega

def readColon (state : State) (cursor : Nat) (place : NumberedToken) : Result (State × Nat) :=
  if state.modifiable ∧ !state.typed then do
    let (state, type, next) ← typeClause tokens state none (cursor + 1)
    match type with
    | none => refuse .missingType place
    | some type => return ({ state.write (typeToken place type) with typed := true }, next)
  else refuse .misplacedColon place

def readLiteral (state : State) (cursor : Nat) (place : NumberedToken) : Result State := do
  let previous ← previousKind? tokens cursor
  if previous = some .identifier ∨ previous.any TokenKind.isLiteral ∨ state.modifiable then
    refuse (.misplacedValue place.literal) place
  else return state.write (← valueToken place)

/-- The index of the token that ends a right-hand side. -/
def valueEnd (index : Nat) : Result Nat :=
  match _read : tokenAt tokens index with
  | .error failure => .error failure
  | .ok place =>
    if endsRightHandSide place.kind then .ok index
    else if place.kind = .equals then refuse .secondAssignment place
    else valueEnd (index + 1)
termination_by tokens.length - index
decreasing_by
  have inside := lt_of_tokenAt _read
  omega

def tokensFrom (index : Nat) : Nat → Result (List NumberedToken)
  | 0 => .ok []
  | count + 1 => do return (← tokenAt tokens index) :: (← tokensFrom (index + 1) count)

def readAssignment (state : State) (cursor : Nat) (place : NumberedToken) :
    Result (State × Nat) :=
  if state.assigned then refuse .secondAssignment place
  else
    let state := { inheritType state place with assigned := true }.write (place.inRole .assign)
    do
      let finish ← valueEnd tokens (cursor + 1)
      match ← tokensFrom tokens (cursor + 1) (finish - (cursor + 1)) with
      | [] => refuse .nothingAssigned place
      | first :: more =>
        if (first :: more).any (isArithmetic ·.kind) then
          return (state.write (← expressionToken first more), finish)
        else return (state, cursor + 1)

/-! ## The loop -/

/-- Handles the token at the cursor. -/
def handle (state : State) (cursor : Nat) (place : NumberedToken) : Result (State × Nat) :=
  match place.kind with
  | .newline => .ok ((state.write (place.inRole .newline)).newStatement, cursor + 1)
  | .identifier => readName tokens state cursor place
  | .arrow => return (← readArrow state place, cursor + 1)
  | .colon => readColon tokens state cursor place
  | .muta | .temp | .const => return (← readModifier state place, cursor + 1)
  | .equals => readAssignment tokens state cursor place
  | .int | .float | .string | .bool | .null =>
    return (← readLiteral tokens state cursor place, cursor + 1)
  | .question =>
    .ok ({ state.write (place.inRole .inspect) with named := false, typed := false }, cursor + 1)
  | .leftBrace => return (← openBlock tokens state cursor place, cursor + 1)
  | .rightBrace => return (← closeBlock state place, cursor + 1)
  | _ => refuse (.misplacedToken place.literal) place

/-- One turn of the loop: all that is written at the end of the input, or the state and the cursor
of the next turn. -/
def turn (state : State) (cursor : Nat) : Result (List AnnotatedToken ⊕ State × Nat) := do
  let place ← tokenAt tokens cursor
  if place.kind = .endOfInput then return .inl (← finish state place)
  else return .inr (← handle tokens state cursor place)

end Loop

/-! ## Looking around the cursor -/

section Around

variable {passed rest : List NumberedToken}

theorem tokenAt_nat (tokens : List NumberedToken) (index : Nat) :
    tokenAt tokens index = match tokens[index]? with
      | some token => .ok token
      | none => pastTheEnd := by
  rw [tokenAt, if_neg (by omega), Int.toNat_natCast]

theorem tokenAt_ahead (passed rest : List NumberedToken) (count : Nat) :
    tokenAt (passed.reverse ++ rest) ↑(passed.length + count) = match rest[count]? with
      | some token => .ok token
      | none => pastTheEnd := by
  rw [tokenAt_nat, List.getElem?_append_right (by simp)]
  simp

/-- The token at the cursor. -/
theorem tokenAt_here (passed rest : List NumberedToken) :
    tokenAt (passed.reverse ++ rest) passed.length = match rest with
      | token :: _ => .ok token
      | [] => pastTheEnd := by
  have ahead := tokenAt_ahead passed rest 0
  rw [Nat.add_zero] at ahead
  rw [ahead]
  cases rest <;> rfl

theorem tokenAt_behind (token : NumberedToken) (passed rest : List NumberedToken) :
    tokenAt ((token :: passed).reverse ++ rest) (((token :: passed).length : Int) - 1) =
      .ok token := by
  have behind : ((token :: passed).length : Int) - 1 = (passed.length : Nat) := by simp
  rw [behind, List.reverse_cons, List.append_assoc, List.singleton_append, tokenAt_here]

theorem previousKind?_eq :
    previousKind? (passed.reverse ++ rest) passed.length =
      .ok (passed.head?.map NumberedToken.kind) := by
  cases passed with
  | nil => rfl
  | cons token passed =>
    rw [previousKind?, if_pos (by simp), tokenAt_behind]
    rfl

/-- Whether the first tokens of a list have the given kinds. -/
def startsWith : List NumberedToken → List TokenKind → Bool
  | _, [] => true
  | [], _ :: _ => false
  | token :: tokens, kind :: kinds => token.kind == kind && startsWith tokens kinds

theorem length_le_of_startsWith {kinds : List TokenKind} (starts : startsWith passed kinds = true) :
    kinds.length ≤ passed.length := by
  induction kinds generalizing passed with
  | nil => simp
  | cons kind kinds inductionHypothesis =>
    cases passed with
    | nil => cases starts
    | cons token passed =>
      have later := inductionHypothesis (Bool.and_eq_true_iff.mp starts).2
      simpa using later

theorem precededBy_eq {kinds : List TokenKind} (long : kinds.length ≤ passed.length) :
    precededBy (passed.reverse ++ rest) passed.length kinds = .ok (startsWith passed kinds) := by
  induction kinds generalizing passed rest with
  | nil =>
    cases passed <;> rfl
  | cons kind kinds inductionHypothesis =>
    cases passed with
    | nil => cases long
    | cons token passed =>
      have later := @inductionHypothesis passed (token :: rest) (by simpa using long)
      have behind : ((token :: passed).length : Int) - 1 = (passed.length : Nat) := by simp
      rw [precededBy, tokenAt_behind, Result.ok_bind, behind, List.reverse_cons, List.append_assoc,
        List.singleton_append, later]
      split
      · rename_i isKind
        simp [startsWith, isKind]
      · rename_i noKind
        simp [startsWith, noKind]

theorem follows_eq (kinds : List TokenKind) :
    follows (passed.reverse ++ rest) passed.length kinds = .ok (startsWith passed kinds) := by
  unfold follows
  split
  · rename_i long
    exact precededBy_eq long
  · rename_i short
    have none_ : startsWith passed kinds = false :=
      Bool.eq_false_iff.mpr fun starts => short (length_le_of_startsWith starts)
    rw [none_]

theorem pathNames_eq (name : NumberedToken) :
    ∀ passed rest : List NumberedToken,
      pathNames (passed.reverse ++ name :: rest) passed.length =
        .ok (Annotations.pathNames name passed)
  | [], rest => by
    have here := tokenAt_here [] (name :: rest)
    simp only [List.length_nil] at here ⊢
    rw [pathNames.eq_2 _ _ (by simp), here]
    rfl
  | [previous], rest => by
    have here := tokenAt_here [previous] (name :: rest)
    simp only [List.length_singleton] at here ⊢
    rw [pathNames.eq_2 _ _ (by simp), here]
    rfl
  | arrow :: outer :: passed, rest => by
    have here := tokenAt_here (arrow :: outer :: passed) (name :: rest)
    have before := @follows_eq (arrow :: outer :: passed) (name :: rest) [.arrow, .identifier]
    have further := pathNames_eq outer passed (arrow :: name :: rest)
    have split : (arrow :: outer :: passed).reverse ++ name :: rest =
        passed.reverse ++ outer :: arrow :: name :: rest := by simp
    simp only [List.length_cons] at here before ⊢
    rw [pathNames, here, before]
    simp only [Result.ok_bind, split, further]
    by_cases links : arrow.kind = .arrow ∧ outer.kind = .identifier
    · simp [startsWith, Annotations.pathNames, links.1, links.2]
    · have noLink : startsWith (arrow :: outer :: passed) [.arrow, .identifier] = false := by
        simpa [startsWith] using links
      simp [noLink, Annotations.pathNames, if_neg links]

theorem headerBefore?_eq :
    headerBefore? (passed.reverse ++ rest) passed.length =
      .ok (Annotations.headerBefore? passed) := by
  unfold headerBefore?
  simp only [follows_eq, Result.ok_bind]
  match passed with
  | [] => rfl
  | [only] => simp [startsWith, Annotations.headerBefore?]
  | [first, second] =>
    have names := pathNames_eq second [] (first :: rest)
    simp_all [startsWith, Annotations.headerBefore?, apply_ite Except.ok]
  | [first, second, third] =>
    have names := pathNames_eq second [third] (first :: rest)
    simp_all [startsWith, Annotations.headerBefore?, apply_ite Except.ok]
  | first :: second :: third :: fourth :: passed =>
    have type := tokenAt_behind first (second :: third :: fourth :: passed) rest
    have names := pathNames_eq second (third :: fourth :: passed) (first :: rest)
    have typedNames := pathNames_eq fourth passed (third :: second :: first :: rest)
    simp_all [startsWith, Annotations.headerBefore?, apply_ite Except.ok]

theorem headerBrace?_of_answers {tokens : List NumberedToken} {index : Nat}
    {answers : Result (Option Nat)} (turned : headerTurn tokens index = Sum.inl <$> answers) :
    headerBrace? tokens index = answers := by
  unfold headerBrace?
  cases answers <;> split <;> simp_all

theorem headerBrace?_of_next {tokens : List NumberedToken} {index next : Nat}
    (turned : headerTurn tokens index = .ok (.inr next)) :
    headerBrace? tokens index = headerBrace? tokens next := by
  rw [headerBrace?]
  split <;> simp_all

/-- Behind a name and its arrow anything but a further name is an answer. -/
theorem behindLink_answers {name arrow after : NumberedToken}
    (linked : name.kind = .identifier ∧ arrow.kind = .arrow) (noName : after.kind ≠ .identifier)
    (rest : List NumberedToken) :
    behindLink (passed.reverse ++ name :: arrow :: after :: rest) passed.length =
      Sum.inl <$> (Option.map (passed.length + ·) <$>
        headerLength? (name :: arrow :: after :: rest)) := by
  unfold behindLink headerLength?
  simp only [tokenAt_ahead, List.getElem?_cons_succ, List.getElem?_cons_zero, linked.1, linked.2,
    and_self, if_true, Result.ok_bind]
  cases kind : after.kind with
  | leftBrace => rfl
  | colon =>
    rcases rest with _ | ⟨type, _ | ⟨brace, rest⟩⟩
    · rfl
    · by_cases isType : type.kind = .typeName <;> simp [isType, pastTheEnd]
    · by_cases isType : type.kind = .typeName <;>
        by_cases isBrace : brace.kind = .leftBrace <;> simp [isType, isBrace]
  | identifier => exact absurd kind noName
  | _ => rfl

/-- A turn has the answer unless the search goes on at the next name. -/
theorem headerTurn_answers
    (ending : ∀ name arrow after more, rest = name :: arrow :: after :: more →
      name.kind = .identifier ∧ arrow.kind = .arrow → after.kind ≠ .identifier) :
    headerTurn (passed.reverse ++ rest) passed.length =
      Sum.inl <$> (Option.map (passed.length + ·) <$> headerLength? rest) := by
  unfold headerTurn
  simp only [tokenAt_here, tokenAt_ahead]
  rcases rest with _ | ⟨name, _ | ⟨arrow, _ | ⟨after, rest⟩⟩⟩
  · rfl
  · by_cases isName : name.kind = .identifier <;> simp [headerLength?, isName, pastTheEnd]
  · unfold behindLink
    simp only [tokenAt_ahead]
    by_cases isName : name.kind = .identifier <;> by_cases isArrow : arrow.kind = .arrow <;>
      simp [headerLength?, isName, isArrow, pastTheEnd]
  · by_cases linked : name.kind = .identifier ∧ arrow.kind = .arrow
    · rw [← behindLink_answers linked (ending _ _ _ _ rfl linked)]
      simp [linked.1, linked.2]
    · rw [headerLength?_unlinked linked]
      by_cases isName : name.kind = .identifier
      · have noArrow : arrow.kind ≠ .arrow := fun isArrow => linked ⟨isName, isArrow⟩
        simp [noArrow]
      · simp [isName]

theorem headerTurn_goesOn {name arrow after : NumberedToken}
    (linked : name.kind = .identifier ∧ arrow.kind = .arrow) (isName : after.kind = .identifier)
    (rest : List NumberedToken) :
    headerTurn (passed.reverse ++ name :: arrow :: after :: rest) passed.length =
      .ok (.inr (passed.length + 2)) := by
  unfold headerTurn behindLink
  simp only [tokenAt_here, tokenAt_ahead, List.getElem?_cons_succ, List.getElem?_cons_zero]
  simp [linked.1, linked.2, isName]

/-- The search finds the header that the walk measures. -/
theorem headerBrace?_eq (passed rest : List NumberedToken) :
    headerBrace? (passed.reverse ++ rest) passed.length =
      Option.map (passed.length + ·) <$> headerLength? rest := by
  by_cases goesOn : ∃ name arrow after more, rest = name :: arrow :: after :: more ∧
      (name.kind = .identifier ∧ arrow.kind = .arrow) ∧ after.kind = .identifier
  · obtain ⟨name, arrow, after, more, rfl, linked, isName⟩ := goesOn
    have further := headerBrace?_eq (arrow :: name :: passed) (after :: more)
    have split : (arrow :: name :: passed).reverse ++ after :: more =
        passed.reverse ++ name :: arrow :: after :: more := by simp
    rw [split, List.length_cons, List.length_cons] at further
    rw [headerBrace?_of_next (headerTurn_goesOn linked isName more), further]
    rw [headerLength?_further linked isName]
    cases headerLength? (after :: more) with
    | error failure => rfl
    | ok length? => cases length? <;> simp [Nat.add_assoc, Nat.add_comm 2]
  · refine headerBrace?_of_answers (headerTurn_answers ?_)
    intro name arrow after more split linked isName
    exact goesOn ⟨name, arrow, after, more, split, linked, isName⟩
termination_by rest.length

/-! ## Handling by index -/

/-- A header has a name and an arrow, and its brace is in the list. -/
theorem headerLength?_bounds : ∀ {tokens : List NumberedToken} {length : Nat},
    headerLength? tokens = .ok (some length) → 2 ≤ length ∧ length < tokens.length
  | [], length, measured => by simp [headerLength?, pastTheEnd] at measured
  | [name], length, measured => by
    unfold headerLength? at measured
    split at measured <;> cases measured
  | [name, arrow], length, measured => by
    unfold headerLength? at measured
    split at measured <;> cases measured
  | name :: arrow :: after :: rest, length, measured => by
    unfold headerLength? at measured
    split at measured
    · split at measured
      · cases measured
        simp
      · split at measured
        · cases measured
        · split at measured
          · split at measured
            · cases measured
            · rw [Except.ok.injEq] at measured
              split at measured <;> cases measured
              simp
          · cases measured
      · simp only [Result.bind_eq_ok_iff] at measured
        obtain ⟨length?, further, measured⟩ := measured
        cases length? with
        | none => cases measured
        | some count =>
          cases measured
          have bounds := headerLength?_bounds further
          simp only [List.length_cons] at bounds ⊢
          omega
      · cases measured
    · cases measured

theorem nameRole_eq (state : State) (place : NumberedToken) :
    nameRole (passed.reverse ++ place :: rest) state passed.length =
      Annotations.nameRole state rest := by
  have next := tokenAt_ahead passed (place :: rest) 1
  have after := tokenAt_ahead passed (place :: rest) 2
  rw [nameRole, next, after]
  match rest with
  | [] => rfl
  | [next] => simp [Annotations.nameRole, pastTheEnd]
  | next :: name :: rest => simp [Annotations.nameRole]

theorem readName_eq (state : State) (place : NumberedToken) :
    readName (passed.reverse ++ place :: rest) state passed.length place =
      Prod.map id (passed.length + 1 + ·) <$> Annotations.readName state passed place rest := by
  rw [readName, Annotations.readName, previousKind?_eq, Result.ok_bind, nameRole_eq,
    headerBrace?_eq]
  split
  · rfl
  split
  · rfl
  split
  · cases measured : headerLength? (place :: rest) with
    | error failure => rfl
    | ok length? =>
      cases length? with
      | none => cases Annotations.nameRole state rest <;> rfl
      | some length =>
        have bounds := headerLength?_bounds measured
        have brace : passed.length + length = passed.length + 1 + (length - 1) := by omega
        simp [brace]
  · cases Annotations.nameRole state rest <;> rfl

theorem typeClause_eq (state : State) (type : Option String) :
    typeClause (passed.reverse ++ rest) state type passed.length =
      Prod.map id (Prod.map id (passed.length + ·)) <$> Annotations.typeClause state type rest := by
  induction rest generalizing passed state type with
  | nil =>
    rw [typeClause, tokenAt_here]
    rfl
  | cons place rest inductionHypothesis =>
    have here := tokenAt_here passed (place :: rest)
    have further := @inductionHypothesis (place :: passed)
    simp only [List.reverse_cons, List.append_assoc, List.singleton_append,
      List.length_cons] at further
    have onward (state : State) (type : Option String) :
        typeClause (passed.reverse ++ place :: rest) state type (passed.length + 1) =
          Prod.map id (Prod.map id (passed.length + ·)) <$> do
            let (state, type, count) ← Annotations.typeClause state type rest
            return (state, type, count + 1) := by
      rw [further]
      cases Annotations.typeClause state type rest with
      | error failure => rfl
      | ok read =>
        obtain ⟨state, type, count⟩ := read
        simp [Nat.add_assoc, Nat.add_comm 1]
    unfold typeClause Annotations.typeClause
    split
    · simp_all
    · rename_i token read
      rw [here] at read
      cases read
      split
      · split
        · rfl
        · exact onward state (some place.literal)
      split
      · cases readModifier state place with
        | error failure => rfl
        | ok modified => exact onward modified type
      · rfl

theorem readColon_eq (state : State) (place : NumberedToken) :
    readColon (passed.reverse ++ place :: rest) state passed.length place =
      Prod.map id (passed.length + 1 + ·) <$> Annotations.readColon state place rest := by
  have clause := @typeClause_eq (place :: passed) rest state none
  simp only [List.reverse_cons, List.append_assoc, List.singleton_append,
    List.length_cons] at clause
  rw [readColon, Annotations.readColon, clause]
  split
  · cases Annotations.typeClause state none rest with
    | error failure => rfl
    | ok read =>
      obtain ⟨modified, type, count⟩ := read
      cases type <;> rfl
  · rfl

theorem readLiteral_eq (state : State) (place : NumberedToken) :
    readLiteral (passed.reverse ++ rest) state passed.length place =
      Annotations.readLiteral state passed place := by
  rw [readLiteral, Annotations.readLiteral, previousKind?_eq]
  rfl

theorem valueEnd_eq :
    valueEnd (passed.reverse ++ rest) passed.length =
      (passed.length + ·.length) <$> rightHandSide rest := by
  induction rest generalizing passed with
  | nil =>
    rw [valueEnd, tokenAt_here]
    rfl
  | cons place rest inductionHypothesis =>
    have here := tokenAt_here passed (place :: rest)
    have further := @inductionHypothesis (place :: passed)
    simp only [List.reverse_cons, List.append_assoc, List.singleton_append,
      List.length_cons] at further
    unfold valueEnd rightHandSide
    split
    · simp_all
    · rename_i token read
      rw [here] at read
      cases read
      split
      · rfl
      split
      · rfl
      · rw [further]
        cases rightHandSide rest with
        | error failure => rfl
        | ok run => simp [Nat.add_assoc, Nat.add_comm 1]

theorem tokensFrom_eq (run rest : List NumberedToken) :
    tokensFrom (passed.reverse ++ (run ++ rest)) passed.length run.length = .ok run := by
  induction run generalizing passed with
  | nil => rfl
  | cons token run inductionHypothesis =>
    have later := @inductionHypothesis (token :: passed)
    simp only [List.reverse_cons, List.append_assoc, List.singleton_append,
      List.length_cons] at later
    rw [List.length_cons, tokensFrom, List.cons_append, tokenAt_here, Result.ok_bind, later]
    rfl

/-- A right-hand side has the token that ends it behind it. -/
theorem split_of_rightHandSide {run : List NumberedToken} (read : rightHandSide rest = .ok run) :
    ∃ terminator later, rest = run ++ terminator :: later := by
  induction rest generalizing run with
  | nil => cases read
  | cons place rest inductionHypothesis =>
    unfold rightHandSide at read
    split at read
    · cases read
      exact ⟨_, _, rfl⟩
    split at read
    · cases read
    · simp only [Result.bind_eq_ok_iff] at read
      obtain ⟨run, further, read⟩ := read
      cases read
      obtain ⟨terminator, later, rfl⟩ := inductionHypothesis further
      exact ⟨terminator, later, rfl⟩

theorem readAssignment_eq (state : State) (place : NumberedToken) :
    readAssignment (passed.reverse ++ place :: rest) state passed.length place =
      Prod.map id (passed.length + 1 + ·) <$> Annotations.readAssignment state place rest := by
  have ending := @valueEnd_eq (place :: passed) rest
  simp only [List.reverse_cons, List.append_assoc, List.singleton_append,
    List.length_cons] at ending
  rw [readAssignment, Annotations.readAssignment]
  split
  · rfl
  · simp only [ending]
    cases read : rightHandSide rest with
    | error failure => rfl
    | ok run =>
      obtain ⟨terminator, later, rfl⟩ := split_of_rightHandSide read
      have value := @tokensFrom_eq (place :: passed) run (terminator :: later)
      simp only [List.reverse_cons, List.append_assoc, List.singleton_append,
        List.length_cons] at value
      simp only [Result.map_ok, Result.ok_bind, Nat.add_sub_cancel_left, value]
      cases run with
      | nil => rfl
      | cons first more =>
        simp only
        split
        · cases expressionToken first more <;> rfl
        · rfl

theorem openBlock_eq (state : State) (brace : NumberedToken) :
    openBlock (passed.reverse ++ rest) state passed.length brace =
      Annotations.openBlock state passed brace := by
  rw [openBlock, Annotations.openBlock, headerBefore?_eq, Result.ok_bind]
  cases Annotations.headerBefore? passed <;> rfl

theorem passedOver (result : Result State) (start : Nat) :
    (do return (← result, start)) =
      Prod.map id (start + ·) <$> (do return (← result, 0) : Result (State × Nat)) := by
  cases result <;> rfl

/-- The loop handles the token at the cursor as the walk does. -/
theorem handle_eq (state : State) (place : NumberedToken) :
    handle (passed.reverse ++ place :: rest) state passed.length place =
      Prod.map id (passed.length + 1 + ·) <$> step state passed place rest := by
  unfold handle step
  simp only [readName_eq, readColon_eq, readAssignment_eq, readLiteral_eq, openBlock_eq]
  cases place.kind <;> first | rfl | exact passedOver _ _

end Around

end Cursor

end ParaLang.Annotations
