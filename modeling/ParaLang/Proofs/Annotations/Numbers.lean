import ParaLang.Proofs.Alike
import ParaLang.Proofs.Annotations.Orderly

/-! # Annotation up to numbers

The number of a token is written with it, but no step of annotation depends on the numbers of what
has been written.  Of the tokens that have been passed a step sees only the last one and the header
of a block that ends there. -/

namespace ParaLang

/-- An annotated token without its number in the line. -/
def AnnotatedToken.unnumbered (token : AnnotatedToken) : AnnotatedToken :=
  { token with number := 0 }

namespace Annotations

open ParaLang.Grammar
open AnnotatedToken (unnumbered)

/-! ## States -/

theorem unnumbered_withModifier (kind : TokenKind) (token : AnnotatedToken) :
    (withModifier kind token).unnumbered = withModifier kind token.unnumbered := by
  cases kind <;> rfl

theorem role_of_unnumbered {token other : AnnotatedToken}
    (same : token.unnumbered = other.unnumbered) : token.role = other.role := by
  have roles : token.unnumbered.role = other.unnumbered.role := by rw [same]
  exact roles

section Numbers

variable {state other : State} {passed hidden rest : List NumberedToken} {place : NumberedToken}

/-- The states differ at most in the numbers of written tokens. -/
abbrev Renumbered : State → State → Prop :=
  Agrees unnumbered

/-- States that are the same up to numbers. -/
theorem renumbered_mk {output others : List AnnotatedToken}
    (images : others.map unnumbered = output.map unnumbered) (frames : List Frame)
    (assigned named typed : Bool) :
    Renumbered ⟨output, frames, assigned, named, typed⟩ ⟨others, frames, assigned, named, typed⟩ :=
  ⟨images, rfl, rfl, rfl, rfl⟩

theorem renumbered_write (renumbered : Renumbered state other) {token copy : AnnotatedToken}
    (same : copy.unnumbered = token.unnumbered) :
    Renumbered (state.write token) (other.write copy) := by
  simp only [State.write, renumbered.frames, renumbered.assigned, renumbered.named, renumbered.typed]
  refine renumbered_mk ?_ ..
  rw [List.map_cons, List.map_cons, same, renumbered.images]

theorem renumbered_newStatement (renumbered : Renumbered state other) :
    Renumbered state.newStatement other.newStatement := by
  simp only [State.newStatement, renumbered.frames]
  exact renumbered_mk renumbered.images ..

theorem Renumbered.startsPath (renumbered : Renumbered state other) :
    other.startsPath = state.startsPath := by
  have images := renumbered.images
  unfold State.startsPath
  cases written : state.output with
  | nil =>
    rw [written, List.map_nil, List.map_eq_nil_iff] at images
    rw [images]
  | cons last earlier =>
    rw [written] at images
    obtain ⟨last', earlier', written', same, -⟩ := List.map_eq_cons_iff.mp images
    simp [written', role_of_unnumbered same]

theorem renumbered_writeName (renumbered : Renumbered state other) (place : NumberedToken)
    (role : Role) : Renumbered (writeName state place role) (writeName other place role) := by
  have path : other.blockPath place = state.blockPath place := by
    rw [State.blockPath, renumbered.frames]
    rfl
  simp only [writeName, renumbered.startsPath, State.writeBlockPath, path]
  split <;>
    simp only [State.write, renumbered.frames, renumbered.assigned, renumbered.named,
      renumbered.typed] <;>
    refine renumbered_mk ?_ .. <;>
    simp [renumbered.images]

theorem renumbered_modifyLatest {modifier : NumberedToken} :
    ∀ {written others : List AnnotatedToken},
      others.map unnumbered = written.map unnumbered →
        Alike (fun modified other => other.map unnumbered = modified.map unnumbered)
          (modifyLatest modifier written) (modifyLatest modifier others)
  | [], others, same => by
    simp only [List.map_nil, List.map_eq_nil_iff] at same
    rw [same]
    exact rfl
  | token :: earlier, others, same => by
    obtain ⟨other, later, rfl, head, tail⟩ := List.map_eq_cons_iff.mp same
    have literal : other.unnumbered.literal = token.unnumbered.literal := by rw [head]
    have modified : (withModifier modifier.kind other).unnumbered =
        (withModifier modifier.kind token).unnumbered := by
      rw [unnumbered_withModifier, unnumbered_withModifier, head]
    have mutable : (withModifier modifier.kind other).unnumbered.mutable =
        (withModifier modifier.kind token).unnumbered.mutable := by rw [modified]
    have constant : (withModifier modifier.kind other).unnumbered.const =
        (withModifier modifier.kind token).unnumbered.const := by rw [modified]
    simp only [unnumbered] at literal mutable constant
    simp only [modifyLatest, role_of_unnumbered head, literal, mutable, constant]
    split
    · split
      · exact .failing ..
      · change List.map _ _ = List.map _ _
        rw [List.map_cons, List.map_cons, modified, tail]
    · refine (renumbered_modifyLatest tail).bind fun first second images => ?_
      change List.map _ _ = List.map _ _
      rw [List.map_cons, List.map_cons, head, images]

theorem renumbered_readModifier (renumbered : Renumbered state other) (modifier : NumberedToken) :
    Alike Renumbered (readModifier state modifier) (readModifier other modifier) := by
  simp only [readModifier, renumbered.modifiable, renumbered.frames, renumbered.assigned,
    renumbered.named, renumbered.typed]
  split
  · exact (renumbered_modifyLatest renumbered.images).bind fun first second images =>
      renumbered_mk images ..
  · exact .failing ..

/-- Both read ahead equally far. -/
theorem renumbered_typeClause (renumbered : Renumbered state other) (type : Option String) :
    Alike (fun first second => Renumbered first.1 second.1 ∧ second.2 = first.2)
      (typeClause state type rest) (typeClause other type rest) := by
  induction rest generalizing state other type with
  | nil => exact rfl
  | cons place rest inductionHypothesis =>
    unfold typeClause
    split
    · split
      · exact .failing ..
      · refine (inductionHypothesis renumbered _).bind ?_
        rintro ⟨first, found⟩ ⟨second, _⟩ ⟨states, rfl⟩
        exact ⟨states, rfl⟩
    split
    · refine (renumbered_readModifier renumbered place).bind fun first second states => ?_
      refine (inductionHypothesis states type).bind ?_
      rintro ⟨first, found⟩ ⟨second, _⟩ ⟨states, rfl⟩
      exact ⟨states, rfl⟩
    · exact ⟨renumbered, rfl⟩

/-- Both steps succeed with states that are the same up to numbers, or they fail for the same
reason. -/
abbrev StepsAlike (first second : Result (State × Nat)) : Prop :=
  Alike (fun first second => Renumbered first.1 second.1 ∧ second.2 = first.2) first second

theorem StepsAlike.single {first second : Result State} (alike : Alike Renumbered first second) :
    StepsAlike (do return (← first, 0)) (do return (← second, 0)) :=
  alike.bind fun _ _ states => ⟨states, rfl⟩

theorem alike_readColon (renumbered : Renumbered state other) :
    StepsAlike (readColon state place rest) (readColon other place rest) := by
  simp only [readColon, renumbered.modifiable, renumbered.typed]
  split
  · refine (renumbered_typeClause renumbered none).bind ?_
    rintro ⟨first, type, count⟩ ⟨second, _⟩ ⟨states, rfl⟩
    cases type with
    | none => exact .failing ..
    | some type =>
      have written := renumbered_write states (rfl : (typeToken place type).unnumbered = _)
      exact ⟨⟨written.images, written.frames, written.assigned, written.named, rfl⟩, rfl⟩
  · exact .failing ..

theorem renumbered_inheritType (renumbered : Renumbered state other) (place : NumberedToken) :
    Renumbered (inheritType state place) (inheritType other place) := by
  have given : other.memberType? = state.memberType? := by
    rw [State.memberType?, renumbered.frames]
    rfl
  simp only [inheritType, given, renumbered.named, renumbered.typed]
  split
  · split
    · rename_i type _ _
      have written := renumbered_write renumbered
        (rfl : ({ typeToken place type with synthetic := true }).unnumbered = _)
      exact ⟨written.images, written.frames, written.assigned, written.named, rfl⟩
    · exact renumbered
  · exact renumbered

theorem alike_readAssignment (renumbered : Renumbered state other) :
    StepsAlike (readAssignment state place rest) (readAssignment other place rest) := by
  simp only [readAssignment, renumbered.assigned]
  split
  · exact .failing ..
  have inherited := renumbered_inheritType renumbered place
  have assigned : Renumbered { inheritType state place with assigned := true }
      { inheritType other place with assigned := true } :=
    ⟨inherited.images, inherited.frames, rfl, inherited.named, inherited.typed⟩
  have written := renumbered_write assigned (rfl : (place.inRole .assign).unnumbered = _)
  refine Alike.refl.bind_eq fun run => ?_
  cases run with
  | nil => exact .failing ..
  | cons first more =>
    simp only
    split
    · exact Alike.refl.bind_eq fun token => ⟨renumbered_write written rfl, rfl⟩
    · exact ⟨written, rfl⟩

/-! ## Steps -/

/-- Passed tokens that no look back tells apart. -/
structure Indistinct (passed other : List NumberedToken) : Prop where
  name : passed.head?.map NumberedToken.kind = some .identifier ↔
    other.head?.map NumberedToken.kind = some .identifier
  literal : (passed.head?.map NumberedToken.kind).any TokenKind.isLiteral =
    (other.head?.map NumberedToken.kind).any TokenKind.isLiteral
  start : (passed.head?.map NumberedToken.kind).all endsStatement =
    (other.head?.map NumberedToken.kind).all endsStatement
  header : ∀ more, headerBefore? (more ++ passed) = headerBefore? (more ++ other)

theorem Indistinct.cons (indistinct : Indistinct passed hidden) (place : NumberedToken) :
    Indistinct (place :: passed) (place :: hidden) :=
  ⟨Iff.rfl, rfl, rfl, fun more => by simpa using indistinct.header (more ++ [place])⟩

theorem Indistinct.refl (passed : List NumberedToken) : Indistinct passed passed :=
  ⟨Iff.rfl, rfl, rfl, fun _ => rfl⟩

theorem alike_readName (renumbered : Renumbered state other) (indistinct : Indistinct passed hidden) :
    StepsAlike (readName state passed place rest) (readName other hidden place rest) := by
  have role : nameRole other rest = nameRole state rest := by
    simp only [nameRole, renumbered.assigned]
  have written : StepsAlike
      (do return (writeName state place (← nameRole state rest), 0))
      (do return (writeName other place (← nameRole state rest), 0)) :=
    Alike.refl.bind_eq fun role => ⟨renumbered_writeName renumbered place role, rfl⟩
  simp only [readName, renumbered.modifiable, renumbered.startsPath, indistinct.name,
    indistinct.literal, indistinct.start, renumbered.assigned, role]
  split
  · exact .failing ..
  split
  · exact .failing ..
  split
  · refine Alike.refl.bind_eq fun header => ?_
    cases header with
    | none => exact written
    | some length => exact ⟨renumbered, rfl⟩
  · exact written

theorem alike_readArrow (renumbered : Renumbered state other) :
    Alike Renumbered (readArrow state place) (readArrow other place) := by
  have images := renumbered.images
  unfold readArrow
  cases written : state.output with
  | nil =>
    rw [written, List.map_nil, List.map_eq_nil_iff] at images
    rw [images]
    exact .failing ..
  | cons last earlier =>
    rw [written] at images
    obtain ⟨last', earlier', written', same, -⟩ := List.map_eq_cons_iff.mp images
    simp only [written', role_of_unnumbered same]
    split
    · exact renumbered_write renumbered rfl
    · exact .failing ..

theorem alike_readLiteral (renumbered : Renumbered state other)
    (indistinct : Indistinct passed hidden) :
    Alike Renumbered (readLiteral state passed place) (readLiteral other hidden place) := by
  simp only [readLiteral, indistinct.name, indistinct.literal, renumbered.modifiable]
  split
  · exact .failing ..
  · exact Alike.refl.bind_eq fun token => renumbered_write renumbered rfl

theorem alike_openBlock (renumbered : Renumbered state other)
    (indistinct : Indistinct passed hidden) :
    Alike Renumbered (openBlock state passed place) (openBlock other hidden place) := by
  have header := indistinct.header []
  simp only [List.nil_append] at header
  unfold openBlock
  rw [header]
  split
  · exact .failing ..
  · rename_i names memberType _
    refine renumbered_newStatement (renumbered_write ?_ rfl)
    exact ⟨renumbered.images, by simp only [renumbered.frames], renumbered.assigned,
      renumbered.named, renumbered.typed⟩

theorem alike_closeBlock (renumbered : Renumbered state other) :
    Alike Renumbered (closeBlock state place) (closeBlock other place) := by
  simp only [closeBlock, renumbered.frames]
  split
  · exact .failing ..
  · refine renumbered_newStatement (renumbered_write ?_ rfl)
    exact ⟨renumbered.images, rfl, renumbered.assigned, renumbered.named, renumbered.typed⟩

theorem alike_step (renumbered : Renumbered state other) (indistinct : Indistinct passed hidden) :
    StepsAlike (step state passed place rest) (step other hidden place rest) := by
  unfold step
  cases place.kind with
  | newline =>
    exact ⟨renumbered_newStatement (renumbered_write renumbered rfl), rfl⟩
  | question =>
    have written := renumbered_write renumbered (rfl : (place.inRole .inspect).unnumbered = _)
    exact ⟨⟨written.images, written.frames, written.assigned, rfl, rfl⟩, rfl⟩
  | identifier => exact alike_readName renumbered indistinct
  | arrow => exact .single (alike_readArrow renumbered)
  | colon => exact alike_readColon renumbered
  | muta | temp | const => exact .single (renumbered_readModifier renumbered place)
  | equals => exact alike_readAssignment renumbered
  | int | float | string | bool | null => exact .single (alike_readLiteral renumbered indistinct)
  | leftBrace => exact .single (alike_openBlock renumbered indistinct)
  | rightBrace => exact .single (alike_closeBlock renumbered)
  | _ => exact .failing ..

/-- From states and passed tokens that look the same the walk writes the same up to numbers. -/
theorem alike_walk (renumbered : Renumbered state other) (indistinct : Indistinct passed hidden)
    (read : Nat) :
    Alike (fun first second => second.map unnumbered = first.map unnumbered)
      (walk state passed read rest) (walk other hidden read rest) := by
  induction rest generalizing state other passed hidden read with
  | nil => exact rfl
  | cons place rest inductionHypothesis =>
    cases read with
    | succ read => exact inductionHypothesis renumbered (indistinct.cons place) read
    | zero =>
      simp only [walk]
      split
      · simp only [finish, renumbered.frames]
        split
        · change List.map _ _ = List.map _ _
          simp only [List.map_reverse, List.map_cons, renumbered.images]
        · exact .failing ..
      · refine (alike_step renumbered indistinct).bind ?_
        rintro ⟨first, count⟩ ⟨second, _⟩ ⟨states, rfl⟩
        exact inductionHypothesis states (indistinct.cons place) _

end Numbers

end Annotations

end ParaLang
