import ParaLang.Proofs.Interpretation.Baking

/-! # What the baked form reads

The baked form of a statement is a matter of its essence, and so are its target and the values that
are written into it. -/

namespace ParaLang

open AnnotatedToken (essence itemEssence)

namespace Statement

variable {tree : Scope} {groups : List String} {statement : List AnnotatedToken}

/-! ## Texts -/

theorem renderToken_essence {token : AnnotatedToken} (inner : token.role.isBoundary = false) :
    renderToken token.essence = renderToken token := by
  have modifiers : token.essence.modifiers = token.modifiers := by
    rw [AnnotatedToken.essence_of_inner inner]
    rfl
  unfold renderToken
  rw [modifiers, AnnotatedToken.essence_of_inner inner]
  cases role : token.role <;> simp [AnnotatedToken.isTextless, role]
  cases token.expression with
  | none => rfl
  | some items => simp [Function.comp_def, itemEssence]

theorem bakeToken_essence {token : AnnotatedToken} (inner : token.role.isBoundary = false) :
    bakeToken tree token.essence = bakeToken tree token := by
  unfold bakeToken
  rw [renderToken_essence inner, AnnotatedToken.role_essence inner,
    AnnotatedToken.essence_of_inner inner]
  cases token.expression with
  | none => rfl
  | some items =>
    have texts : (items.map itemEssence).map (bakeItem tree) = items.map (bakeItem tree) := by
      rw [List.map_map]
      rfl
    simp only [Option.map_some, texts]

theorem bakeTokens_essence (inner : ∀ token ∈ statement, token.role.isBoundary = false)
    (afterAssign : Bool) (read : Nat) :
    bakeTokens tree groups afterAssign read (statement.map essence) =
      bakeTokens tree groups afterAssign read statement := by
  induction statement generalizing afterAssign read with
  | nil => rfl
  | cons token rest inductionHypothesis =>
    obtain ⟨first, later⟩ := List.forall_mem_cons.mp inner
    cases read with
    | succ read => exact inductionHypothesis later false read
    | zero =>
      have path := pathAt_essence (token :: rest)
      rw [List.map_cons] at path ⊢
      simp only [bakeTokens, path, AnnotatedToken.isSegment_essence, bakeToken_essence first,
        AnnotatedToken.role_essence first, inductionHypothesis later]

/-! ## Names, targets and references -/

theorem role_comp_essence {role : Role} (inner : role.isBoundary = false) :
    (fun token : AnnotatedToken => token.role != role) ∘ essence = (·.role != role) := by
  funext token
  simp [bne, @AnnotatedToken.role_essence_eq_iff token role inner]

theorem definition?_eq (statement : List AnnotatedToken) :
    definition? statement = (statement.dropWhile (·.role != .identifier)).head?.map fun name =>
      (name, pathBefore (name :: (statement.takeWhile (·.role != .identifier)).reverse)) := by
  have behind : statement.drop (statement.takeWhile (·.role != .identifier)).length =
      statement.dropWhile (·.role != .identifier) := by
    conv_lhs => arg 2; rw [← @List.takeWhile_append_dropWhile _ (·.role != .identifier) statement]
    exact List.drop_left
  rw [definition?, behind]

theorem firstName?_essence (statement : List AnnotatedToken) :
    firstName? (statement.map essence) = firstName? statement := by
  simp only [firstName?, definition?_eq, List.takeWhile_map, List.dropWhile_map,
    @role_comp_essence .identifier rfl, List.head?_map, Option.map_map, ← List.map_reverse]
  cases behind : statement.dropWhile (·.role != .identifier) with
  | nil => rfl
  | cons name rest =>
    have isName : name.role = .identifier := by
      have found := List.head?_dropWhile_not (·.role != .identifier) statement
      rw [behind] at found
      simpa using found
    have path := pathBefore_essence
      (name :: (statement.takeWhile (·.role != .identifier)).reverse)
    rw [List.map_cons] at path
    have temp : name.essence.temp = name.temp := by
      rw [AnnotatedToken.essence_of_inner (by rw [isName]; rfl)]
    simp only [List.head?_cons, Option.map_some, Function.comp_apply, path, temp]

theorem groups_essence (statement : List AnnotatedToken) :
    Statement.groups (statement.map essence) = Statement.groups statement := by
  rw [groups_eq, firstName?_essence, ← groups_eq]

theorem definesTemporary_essence (statement : List AnnotatedToken) :
    definesTemporary tree (statement.map essence) = definesTemporary tree statement := by
  rw [definesTemporary_eq, firstName?_essence, ← definesTemporary_eq]

theorem target?_essence (statement : List AnnotatedToken) :
    target? (statement.map essence) = (target? statement).map Target.essence := by
  simp only [target?, List.dropWhile_map, List.takeWhile_map, @role_comp_essence .assign rfl]
  cases statement.dropWhile (·.role != .assign) with
  | nil => rfl
  | cons assign rest =>
    have alike := Interpretation.alike_targetBefore assign
      (statement.takeWhile (·.role != .assign)).reverse
    simp only [List.map_cons, ← List.map_reverse]
    revert alike
    cases Interpretation.targetBefore assign
        (statement.takeWhile (·.role != .assign)).reverse <;>
      cases Interpretation.targetBefore assign.essence
        ((statement.takeWhile (·.role != .assign)).reverse.map essence) <;> intro alike
    · rfl
    · cases alike
    · cases alike
    · cases alike
      rfl

theorem definesTarget_essence (statement : List AnnotatedToken) :
    DefinesTarget (statement.map essence) ↔ DefinesTarget statement := by
  simp only [DefinesTarget, target?_essence, firstName?_essence, Option.mem_def,
    Option.map_eq_some_iff]
  constructor
  · intro defines target isTarget
    exact defines target.essence ⟨target, isTarget, rfl⟩
  · rintro defines _ ⟨target, isTarget, rfl⟩
    exact defines target isTarget

theorem reference_essence (statement : List AnnotatedToken) :
    reference (statement.map essence) = reference statement := by
  simp only [reference, List.dropWhile_map, @role_comp_essence .assign rfl, ← List.map_drop,
    pathAt_essence]

/-! ## Values that can be written -/

theorem pastes_itemEssence (previous : Option Role) (items : List AnnotatedToken) :
    Expression.Pastes tree previous (items.map itemEssence) =
      Expression.Pastes tree previous items := by
  have known (item : AnnotatedToken) :
      Expression.known? tree item.itemEssence = Expression.known? tree item := rfl
  have looser (items : List AnnotatedToken) :
      Expression.looser (items.map itemEssence) = Expression.looser items := by
    cases items <;> rfl
  induction items generalizing previous with
  | nil => rfl
  | cons item rest inductionHypothesis =>
    simp only [List.map_cons, Expression.Pastes, known, looser]
    rw [inductionHypothesis]
    rfl

theorem pastes_essence (inner : ∀ token ∈ statement, token.role.isBoundary = false) :
    pastes tree (statement.map essence) = pastes tree statement := by
  have names : ∀ token ∈ statement, token.essence.expression.all (Expression.Pastes tree none) =
      token.expression.all (Expression.Pastes tree none) := by
    intro token member
    rw [AnnotatedToken.essence_of_inner (inner token member)]
    cases token.expression with
    | none => rfl
    | some items => exact pastes_itemEssence none items
  simp only [pastes, groups_essence, reference_essence, List.all_map]
  congr 1
  rw [Bool.eq_iff_iff, List.all_eq_true, List.all_eq_true]
  exact forall₂_congr fun token member => by rw [Function.comp_apply, names token member]

end Statement

end ParaLang
