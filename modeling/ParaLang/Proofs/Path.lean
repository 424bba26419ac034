import Mathlib.Data.List.Basic
import ParaLang.Path
import ParaLang.Proofs.Result

/-! # Paths read the same both ways

A path is read forward from a segment or backward from the token behind one, in any stream of
tokens.  Read backward from where the first reading ends it has the same segments, and more of them
in front only if the first reading starts inside a path; and the other way round. -/

namespace ParaLang

/-! ## Linked segments -/

/-- A run of segments linked by arrows, and what the segments are called. -/
inductive Linked : List AnnotatedToken → List String → Prop where
  | single {token : AnnotatedToken} (isSegment : token.isSegment = true) :
      Linked [token] [token.literal]
  | link {token arrow : AnnotatedToken} {run : List AnnotatedToken} {path : List String}
      (isSegment : token.isSegment = true) (isArrow : arrow.role = .arrow)
      (linked : Linked run path) : Linked (token :: arrow :: run) (token.literal :: path)

/-- An arrow stands at one place, and a segment that it links at another one. -/
def LinkAt (tokens : List AnnotatedToken) (arrowPlace segmentPlace : Nat) : Prop :=
  ∃ arrow segment, tokens[arrowPlace]? = some arrow ∧ tokens[segmentPlace]? = some segment ∧
    arrow.role = .arrow ∧ segment.isSegment = true

section Linked

variable {run other tokens : List AnnotatedToken} {path more : List String}
  {token arrow : AnnotatedToken}

theorem pathTail_arrow (isArrow : arrow.role = .arrow) (tokens : List AnnotatedToken) :
    pathTail (arrow :: tokens) = pathAt tokens := by
  cases tokens with
  | nil => rfl
  | cons segment rest => simp [pathTail, pathAt, isArrow]

theorem pathTail_eq_nil_iff : pathTail tokens = [] ↔ ¬LinkAt tokens 0 1 := by
  match tokens with
  | [] | [_] => simp [pathTail, LinkAt]
  | arrow :: segment :: rest => simp [pathTail, LinkAt]

theorem Linked.append (linked : Linked run path) (isArrow : arrow.role = .arrow)
    (linkedOther : Linked other more) : Linked (run ++ arrow :: other) (path ++ more) := by
  induction linked with
  | single isSegment => exact .link isSegment isArrow linkedOther
  | link isSegment isLink _ inductionHypothesis =>
    exact .link isSegment isLink inductionHypothesis

/-- Read from its end a path is a path again. -/
theorem Linked.reverse (linked : Linked run path) : Linked run.reverse path.reverse := by
  induction linked with
  | single isSegment => exact .single isSegment
  | link isSegment isArrow _ inductionHypothesis =>
    simpa using inductionHypothesis.append isArrow (.single isSegment)

theorem Linked.length_eq (linked : Linked run path) : run.length = pathWidth path := by
  induction linked with
  | single => rfl
  | @link token arrow run path _ _ linked inductionHypothesis =>
    have named : 0 < path.length := by cases linked <;> simp
    simp only [pathWidth, List.length_cons] at inductionHypothesis ⊢
    omega

/-- The path at the front of a run goes on with what follows the run. -/
theorem Linked.pathAt_append (linked : Linked run path) (rest : List AnnotatedToken) :
    pathAt (run ++ rest) = path ++ pathTail rest := by
  induction linked with
  | single isSegment => simp [pathAt, isSegment]
  | @link token arrow run path isSegment isArrow _ inductionHypothesis =>
    calc pathAt (token :: arrow :: (run ++ rest))
        = token.literal :: pathTail (arrow :: (run ++ rest)) := if_pos isSegment
      _ = token.literal :: (path ++ pathTail rest) := by
        rw [pathTail_arrow isArrow, inductionHypothesis]

/-- A run of linked segments starts at each segment, as long as it goes on. -/
theorem exists_linked (isSegment : token.isSegment = true) (tokens : List AnnotatedToken) :
    ∃ run rest, token :: tokens = run ++ rest ∧ Linked run (token.literal :: pathTail tokens) ∧
      pathTail rest = [] := by
  -- `pathTail` takes an arrow and a segment at a time; the segment is the next start
  induction tokens using pathTail.induct generalizing token with
  | case1 arrow segment tokens links inductionHypothesis =>
    obtain ⟨run, rest, split, linked, ends⟩ := inductionHypothesis links.2
    rw [pathTail, if_pos links]
    exact ⟨token :: arrow :: run, rest, by rw [split]; rfl, .link isSegment links.1 linked, ends⟩
  | case2 arrow segment tokens apart =>
    have ends : pathTail (arrow :: segment :: tokens) = [] := by rw [pathTail, if_neg apart]
    rw [ends]
    exact ⟨[token], _, rfl, .single isSegment, ends⟩
  | case3 tokens short =>
    have ends : pathTail tokens = [] := by
      rw [pathTail.eq_def]
      split
      · next arrow segment rest => exact absurd rfl (short arrow segment rest)
      · rfl
    rw [ends]
    exact ⟨[token], tokens, rfl, .single isSegment, ends⟩

theorem exists_linked_of_pathAt (starts : pathAt tokens ≠ []) :
    ∃ run rest, tokens = run ++ rest ∧ Linked run (pathAt tokens) := by
  cases tokens with
  | nil => exact absurd rfl starts
  | cons token tokens =>
    rw [pathAt] at starts ⊢
    split at starts
    · next isSegment =>
      rw [if_pos isSegment]
      obtain ⟨run, rest, split, linked, -⟩ := exists_linked isSegment tokens
      exact ⟨run, rest, split, linked⟩
    · exact absurd rfl starts

end Linked

/-! ## The loops -/

section Loops

variable {tokens : List AnnotatedToken} {index : Nat}

theorem tokenAt_of_lt (inside : index < tokens.length) :
    tokenAt tokens index = .ok tokens[index] := by
  have noWrap : ¬(index : Int) < 0 := by omega
  simp only [tokenAt, if_neg noWrap, Int.toNat_natCast, List.getElem?_eq_getElem inside]

/-- From an index on the forward loop reads what continues a path. -/
theorem linksFrom_eq (tokens : List AnnotatedToken) (index : Nat) :
    linksFrom tokens index =
      .ok (pathTail (tokens.drop index), index + 2 * (pathTail (tokens.drop index)).length) := by
  rw [linksFrom]
  split
  · next inside =>
    have inside : index + 1 < tokens.length := by omega
    have split : tokens.drop index =
        tokens[index] :: tokens[index + 1] :: tokens.drop (index + 2) := by
      rw [List.drop_eq_getElem_cons (by omega), List.drop_eq_getElem_cons inside]
    have arrowHere := @tokenAt_of_lt tokens index (by omega)
    have segmentHere : tokenAt tokens (index + 1) = .ok tokens[index + 1] := tokenAt_of_lt inside
    have later : linksFrom tokens (index + 2) = _ := linksFrom_eq tokens (index + 2)
    rw [arrowHere, segmentHere, split, pathTail, later]
    simp only [Result.ok_bind]
    split
    · simp only [Result.pure_eq_ok, List.length_cons]
      congr 2
      omega
    · simp
  · next outside =>
    have short : pathTail (tokens.drop index) = [] := by
      have length := List.length_drop (i := index) (l := tokens)
      match shape : tokens.drop index with
      | [] | [_] => rfl
      | _ :: _ :: _ =>
        rw [shape] at length
        simp only [List.length_cons] at length
        omega
    rw [short]
    simp
termination_by tokens.length - index

/-- In front of an index the backward loop reads what continues a path in reverse. -/
theorem linksBefore_eq (index : Nat) (within : index ≤ tokens.length) (path : List String) :
    linksBefore tokens index path = (pathTail (tokens.take index).reverse).reverse ++ path := by
  match index, within with
  | 0, _ => rfl
  | 1, within =>
    match tokens with
    | [] => rfl
    | _ :: _ => rfl
  | front + 2, within =>
    have split : (tokens.take (front + 2)).reverse =
        tokens[front + 1] :: tokens[front] :: (tokens.take front).reverse := by
      rw [List.take_succ_eq_append_getElem (by omega), List.take_succ_eq_append_getElem (by omega)]
      simp
    have later := linksBefore_eq front (by omega)
    rw [linksBefore, split, pathTail, List.getElem?_eq_getElem (by omega),
      List.getElem?_eq_getElem (by omega)]
    simp only [later]
    split <;> simp

theorem readPathForward_eq (inside : index < tokens.length) (isSegment : tokens[index].isSegment) :
    readPathForward tokens index = .ok (pathAt (tokens.drop index),
      index + pathWidth (pathAt (tokens.drop index))) := by
  have outside : ¬((tokens.length : Int) ≤ index) := by omega
  have later : linksFrom tokens (index + 1) = _ := linksFrom_eq tokens (index + 1)
  rw [readPathForward, if_neg outside, tokenAt_of_lt inside, Result.ok_bind, if_pos isSegment,
    later, List.drop_eq_getElem_cons inside, pathAt, if_pos isSegment, Result.ok_bind]
  simp only [Result.pure_eq_ok, pathWidth, List.length_cons]
  congr 2
  omega

theorem readPathBackward_eq (tokens : List AnnotatedToken) (index : Int) :
    readPathBackward tokens index =
      if index ≤ 0 ∨ tokens.length < index then []
      else pathBefore (tokens.take index.toNat).reverse := by
  rw [readPathBackward]
  split
  · rfl
  · next inside =>
    obtain ⟨last, rfl⟩ : ∃ last : Nat, index = last + 1 := ⟨index.toNat - 1, by omega⟩
    have within : last < tokens.length := by omega
    have front : (tokens.take (last + 1)).reverse = tokens[last] :: (tokens.take last).reverse := by
      rw [List.take_succ_eq_append_getElem within]
      simp
    have place : ((last : Int) + 1).toNat = last + 1 := by omega
    simp only [place, Nat.add_sub_cancel, List.getElem?_eq_getElem within, pathBefore, front,
      pathAt]
    split
    · rw [linksBefore_eq last (Nat.le_of_lt within), List.reverse_cons]
    · rfl

end Loops

/-! ## Reading at an index -/

section Reading

variable {tokens before run after : List AnnotatedToken} {path : List String}

theorem pathTail_behind_iff :
    pathTail after = [] ↔ ¬LinkAt (before ++ after) before.length (before.length + 1) := by
  rw [pathTail_eq_nil_iff]
  simp [LinkAt, List.getElem?_append_right]

theorem pathTail_before_iff : pathTail before.reverse = [] ↔
    ¬(2 ≤ before.length ∧ LinkAt (before ++ after) (before.length - 1) (before.length - 2)) := by
  rw [pathTail_eq_nil_iff]
  rcases before.eq_nil_or_concat' with rfl | ⟨front, arrow, rfl⟩
  · simp [LinkAt]
  rcases front.eq_nil_or_concat' with rfl | ⟨front, segment, rfl⟩
  · simp [LinkAt]
  · simp [LinkAt]

/-- Read forward from its start a run goes on with what stands behind it. -/
theorem readPathForward_linked (linked : Linked run path) (before after : List AnnotatedToken) :
    readPathForward (before ++ run ++ after) before.length =
      .ok (path ++ pathTail after, before.length + pathWidth (path ++ pathTail after)) := by
  have rest : (before ++ run ++ after).drop before.length = run ++ after := by
    rw [List.append_assoc, List.drop_left]
  have inside : before.length < (before ++ run ++ after).length := by
    cases linked <;> simp
  have isSegment : (before ++ run ++ after)[before.length].isSegment = true := by
    cases linked with
    | single isSegment | link isSegment => simpa using isSegment
  rw [readPathForward_eq inside isSegment, rest, linked.pathAt_append]

/-- Read backward from its end a run goes on with what stands in front of it. -/
theorem readPathBackward_linked (linked : Linked run path) (before after : List AnnotatedToken) :
    readPathBackward (before ++ run ++ after) (before ++ run).length =
      (pathTail before.reverse).reverse ++ path := by
  have nonempty : 0 < run.length := by cases linked <;> simp
  rw [readPathBackward_eq, if_neg (by simp only [List.length_append]; omega), Int.toNat_natCast,
    List.take_left, pathBefore, List.reverse_append, linked.reverse.pathAt_append]
  simp

/-- From a segment on stands a run of linked segments, as long as it goes on. -/
theorem exists_run_at {start : Nat} {token : AnnotatedToken} (isAt : tokens[start]? = some token)
    (isSegment : token.isSegment = true) :
    ∃ before run after path, tokens = before ++ run ++ after ∧ start = before.length ∧
      Linked run path ∧ pathTail after = [] := by
  obtain ⟨within, rfl⟩ := List.getElem?_eq_some_iff.mp isAt
  obtain ⟨run, after, split, linked, ends⟩ := exists_linked isSegment (tokens.drop (start + 1))
  refine ⟨tokens.take start, run, after, _, ?_, ?_, linked, ends⟩
  · rw [List.append_assoc, ← split, List.getElem_cons_drop, List.take_append_drop]
  · exact (List.length_take_of_le (Nat.le_of_lt within)).symm

/-- A path that is read backward is that of a run of linked segments. -/
theorem exists_run_before {finish : Int} (read : readPathBackward tokens finish = path)
    (named : path ≠ []) :
    ∃ before run after, tokens = before ++ run ++ after ∧ finish = (before ++ run).length ∧
      Linked run path := by
  rw [readPathBackward_eq] at read
  split at read
  · exact absurd read.symm named
  · next inside =>
    obtain ⟨last, rfl⟩ := Int.eq_ofNat_of_zero_le (show 0 ≤ finish by omega)
    have starts : pathAt (tokens.take last).reverse ≠ [] := fun nothing =>
      named (by rw [← read, Int.toNat_natCast, pathBefore, nothing, List.reverse_nil])
    obtain ⟨run, rest, split, linked⟩ := exists_linked_of_pathAt starts
    have front : tokens.take last = rest.reverse ++ run.reverse := by
      rw [← List.reverse_append, ← split, List.reverse_reverse]
    refine ⟨rest.reverse, run.reverse, tokens.drop last, ?_, ?_, read ▸ linked.reverse⟩
    · rw [← front, List.take_append_drop]
    · rw [← front, List.length_take_of_le (by omega)]

end Reading

/-- Reading a path forward from a segment and backward from where it ends agree on its segments.
The second reading has more of them in front exactly if an arrow and a segment stand before the
start.  Likewise a path read backward is read again forward from its first segment, with more
segments behind it exactly if an arrow and a segment stand at its end. -/
theorem paths_symmetric (tokens : List AnnotatedToken) :
    (∀ (start : Nat) (token : AnnotatedToken), tokens[start]? = some token →
      token.isSegment = true →
      ∃ path finish, readPathForward tokens start = .ok (path, finish) ∧
        path <:+ readPathBackward tokens finish ∧
        (readPathBackward tokens finish = path ↔
          ¬(2 ≤ start ∧ LinkAt tokens (start - 1) (start - 2)))) ∧
    ∀ finish path, readPathBackward tokens finish = path → path ≠ [] →
      ∃ longer last, readPathForward tokens (finish - (2 * path.length - 1)) = .ok (longer, last) ∧
        path <+: longer ∧
        (longer = path ∧ last = finish ↔ ¬LinkAt tokens finish.toNat (finish.toNat + 1)) := by
  constructor
  · intro start token isAt isSegment
    obtain ⟨before, run, after, path, rfl, rfl, linked, ends⟩ := exists_run_at isAt isSegment
    have forward := readPathForward_linked linked before after
    have backward := readPathBackward_linked linked before after
    rw [ends, List.append_nil, ← linked.length_eq, ← Int.natCast_add,
      ← List.length_append] at forward
    refine ⟨path, _, forward, ?_, ?_⟩
    · rw [backward]
      exact List.suffix_append _ _
    · rw [backward, List.append_assoc, ← pathTail_before_iff]
      simp
  · intro finish path read named
    obtain ⟨before, run, after, rfl, rfl, linked⟩ := exists_run_before read named
    have forward := readPathForward_linked linked before after
    have start : ((before ++ run).length : Int) - (2 * path.length - 1) = before.length := by
      have segments : 0 < path.length := List.length_pos_iff.mpr named
      rw [List.length_append, linked.length_eq, pathWidth]
      omega
    rw [← start] at forward
    refine ⟨_, _, forward, List.prefix_append _ _, ?_⟩
    rw [Int.toNat_natCast, ← pathTail_behind_iff]
    constructor
    · rintro ⟨same, -⟩
      simpa using same
    · intro ends
      rw [ends, List.append_nil, start, ← linked.length_eq]
      exact ⟨rfl, by simp⟩

/-- In `g -> h -> x` a reading from `h` starts inside the path, and one that ends behind `h` ends
inside it. -/
theorem paths_symmetric_inside :
    let named (role : Role) (literal : String) : AnnotatedToken :=
      { role := role, literal := literal, kind := .identifier, line := 1, number := 1 }
    let tokens := [named .group "g", named .arrow "->", named .group "h", named .arrow "->",
      named .identifier "x"]
    tokens[2]? = some (named .group "h") ∧ (named .group "h").isSegment = true ∧
    readPathBackward tokens 3 = ["g", "h"] ∧ ["g", "h"] ≠ [] ∧
    (∃ path finish, readPathForward tokens 2 = .ok (path, finish) ∧
      path <:+ readPathBackward tokens finish ∧ readPathBackward tokens finish ≠ path) ∧
    ∃ longer last, readPathForward tokens 0 = .ok (longer, last) ∧ ["g", "h"] <+: longer ∧
      ¬(longer = ["g", "h"] ∧ last = 3) := by
  intro named tokens
  have isAt : tokens[2]? = some (named .group "h") := rfl
  have isSegment : (named .group "h").isSegment = true := rfl
  have backward : readPathBackward tokens 3 = ["g", "h"] := rfl
  have nonempty : ["g", "h"] ≠ [] := List.cons_ne_nil _ _
  obtain ⟨fromStart, fromFinish⟩ := paths_symmetric tokens
  obtain ⟨path, finish, forward, suffix, same⟩ := fromStart 2 _ isAt isSegment
  obtain ⟨longer, last, again, isPrefix, ends⟩ := fromFinish 3 _ backward nonempty
  have inFront : 2 ≤ 2 ∧ LinkAt tokens (2 - 1) (2 - 2) := ⟨by decide, _, _, rfl, rfl, rfl, rfl⟩
  have behind : LinkAt tokens (3 : Int).toNat ((3 : Int).toNat + 1) := ⟨_, _, rfl, rfl, rfl, rfl⟩
  refine ⟨isAt, isSegment, backward, nonempty, ⟨path, finish, forward, suffix, ?_⟩,
    longer, last, again, isPrefix, ?_⟩
  · exact fun equal => same.mp equal inFront
  · exact fun equal => ends.mp equal behind

end ParaLang
