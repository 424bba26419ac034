import ParaLang.Annotations
import ParaLang.Proofs.Annotations.Items
import ParaLang.Proofs.Settled

/-! # Where annotation fails

Annotation blames tokens that it has been given.  So a diagnostic of annotation tells the line of
such a token and its number in the line. -/

namespace ParaLang.Annotations

/-- A fault, or a diagnostic at one of some places. -/
def Points (places : Place → Prop) : Failure → Prop
  | .diagnostic found => found.At places
  | .fault _ => True

/-- A partial computation whose diagnostics are at some places. -/
abbrev Pointing {α : Type} (places : Place → Prop) (result : Result α) : Prop :=
  Settles (Points places) (fun _ => True) result

section Pointing

variable {α β : Type} {places : Place → Prop}

theorem pointing_ok (value : α) : Pointing places (.ok value) :=
  trivial

theorem pointing_pastTheEnd : Pointing places (pastTheEnd : Result α) :=
  trivial

theorem pointing_refuse {place : NumberedToken} (inside : places place.place) (cause : Cause) :
    Pointing places (refuse cause place : Result α) :=
  ⟨place.place, inside, rfl, rfl⟩

theorem Pointing.bind {first : Result α} {next : α → Result β} (points : Pointing places first)
    (later : ∀ value, Pointing places (next value)) : Pointing places (first >>= next) :=
  Settles.bind points fun value _ => later value

theorem Pointing.map {first : Result α} (points : Pointing places first) (function : α → β) :
    Pointing places (function <$> first) := by
  cases first with
  | ok value => trivial
  | error failure => exact points

end Pointing

variable {places : Place → Prop} {place : NumberedToken} {passed rest : List NumberedToken}

/-- Every token is at one of the places. -/
def Inside (places : Place → Prop) (tokens : List NumberedToken) : Prop :=
  ∀ token ∈ tokens, places token.place

theorem inside_cons :
    Inside places (place :: rest) ↔ places place.place ∧ Inside places rest :=
  List.forall_mem_cons

/-! ## Names and blocks -/

theorem pointing_nameRole (state : State) (after : Inside places rest) :
    Pointing places (nameRole state rest) := by
  unfold nameRole
  split
  · exact pointing_pastTheEnd
  · next next later =>
    split
    · split
      · exact pointing_pastTheEnd
      · split
        · exact pointing_ok _
        · exact pointing_refuse (inside_cons.mp after).1 _
    · exact pointing_ok _

/-- A look ahead blames no token. -/
theorem pointing_headerLength? : ∀ tokens : List NumberedToken,
    Pointing places (headerLength? tokens)
  | [] => pointing_pastTheEnd
  | [name] => by
    unfold headerLength?
    split
    · exact pointing_pastTheEnd
    · exact pointing_ok _
  | [name, arrow] => by
    unfold headerLength?
    split
    · exact pointing_pastTheEnd
    · exact pointing_ok _
  | name :: arrow :: after :: rest => by
    unfold headerLength?
    split
    · split
      · exact pointing_ok _
      · split
        · exact pointing_pastTheEnd
        · split
          · split
            · exact pointing_pastTheEnd
            · exact pointing_ok _
          · exact pointing_ok _
      · exact (pointing_headerLength? (after :: rest)).map _
      · exact pointing_ok _
    · exact pointing_ok _

theorem pointing_readName (state : State) (inside : places place.place)
    (after : Inside places rest) : Pointing places (readName state passed place rest) := by
  unfold readName
  simp only
  split
  · exact pointing_refuse inside _
  · split
    · exact pointing_refuse inside _
    · have named := (pointing_nameRole state after).map fun role => (writeName state place role, 0)
      split
      · refine (pointing_headerLength? (place :: rest)).bind fun length? => ?_
        cases length? with
        | some length => exact pointing_ok _
        | none => exact named
      · exact named

theorem pointing_readArrow (state : State) (inside : places place.place) :
    Pointing places (readArrow state place) := by
  unfold readArrow
  split
  · exact pointing_refuse inside _
  · split
    · exact pointing_ok _
    · exact pointing_refuse inside _

theorem pointing_openBlock (state : State) (inside : places place.place) :
    Pointing places (openBlock state passed place) := by
  unfold openBlock
  split
  · exact pointing_refuse inside _
  · exact pointing_ok _

theorem pointing_closeBlock (state : State) (inside : places place.place) :
    Pointing places (closeBlock state place) := by
  unfold closeBlock
  split
  · exact pointing_refuse inside _
  · exact pointing_ok _

/-! ## Modifiers and types -/

theorem pointing_modifyLatest (inside : places place.place) (output : List AnnotatedToken) :
    Pointing places (modifyLatest place output) := by
  induction output with
  | nil => exact pointing_pastTheEnd
  | cons token earlier inductionHypothesis =>
    unfold modifyLatest
    split
    · simp only
      split
      · exact pointing_refuse inside _
      · exact pointing_ok _
    · exact inductionHypothesis.map _

theorem pointing_readModifier (state : State) (inside : places place.place) :
    Pointing places (readModifier state place) := by
  unfold readModifier
  split
  · exact (pointing_modifyLatest inside _).map _
  · exact pointing_refuse inside _

theorem pointing_typeClause (state : State) (type : Option String) (after : Inside places rest) :
    Pointing places (typeClause state type rest) := by
  induction rest generalizing state type with
  | nil => exact pointing_pastTheEnd
  | cons place rest inductionHypothesis =>
    obtain ⟨inside, later⟩ := inside_cons.mp after
    unfold typeClause
    split
    · split
      · exact pointing_refuse inside _
      · exact (inductionHypothesis _ _ later).bind fun _ => pointing_ok _
    · split
      · exact (pointing_readModifier state inside).bind fun _ =>
          (inductionHypothesis _ _ later).bind fun _ => pointing_ok _
      · exact pointing_ok _

theorem pointing_readColon (state : State) (inside : places place.place)
    (after : Inside places rest) : Pointing places (readColon state place rest) := by
  unfold readColon
  split
  · refine (pointing_typeClause state none after).bind fun ⟨modified, type, count⟩ => ?_
    cases type with
    | none => exact pointing_refuse inside _
    | some type => exact pointing_ok _
  · exact pointing_refuse inside _

/-! ## Values and assignments -/

theorem pointing_literalValue (inside : places place.place) :
    Pointing places (literalValue place) := by
  unfold literalValue
  split
  case h_1 | h_2 =>
    split
    · exact pointing_ok _
    · exact pointing_refuse inside _
    · trivial
  all_goals exact pointing_ok _

theorem pointing_valueToken (inside : places place.place) : Pointing places (valueToken place) :=
  (pointing_literalValue inside).bind fun _ => pointing_ok _

theorem pointing_readLiteral (state : State) (inside : places place.place) :
    Pointing places (readLiteral state passed place) := by
  unfold readLiteral
  simp only
  split
  · exact pointing_refuse inside _
  · exact (pointing_valueToken inside).map _

theorem pointing_expressionItem (inside : places place.place) :
    Pointing places (expressionItem place) := by
  unfold expressionItem
  split
  · exact pointing_valueToken inside
  · split
    · exact pointing_ok _
    · split
      case h_5 => exact pointing_refuse inside _
      all_goals exact pointing_ok _

theorem pointing_expressionItems (previous : Option Role) {tokens : List NumberedToken}
    (inside : Inside places tokens) : Pointing places (expressionItems previous tokens) := by
  induction tokens generalizing previous with
  | nil => exact pointing_ok _
  | cons place rest inductionHypothesis =>
    obtain ⟨insidePlace, insideRest⟩ := inside_cons.mp inside
    refine (pointing_expressionItem insidePlace).bind fun item => ?_
    refine (inductionHypothesis _ insideRest).bind fun later => ?_
    split
    · exact pointing_ok _
    · exact pointing_ok _

/-- A right-hand side consists of tokens at the places. -/
theorem settles_rightHandSide (after : Inside places rest) :
    Settles (Points places) (Inside places) (rightHandSide rest) := by
  induction rest with
  | nil => trivial
  | cons place rest inductionHypothesis =>
    obtain ⟨inside, later⟩ := inside_cons.mp after
    unfold rightHandSide
    split
    · simp [Settles, Inside]
    · split
      · exact ⟨place.place, inside, rfl, rfl⟩
      · exact (inductionHypothesis later).bind fun _ insideLater =>
          inside_cons.mpr ⟨inside, insideLater⟩

theorem pointing_readAssignment (state : State) (inside : places place.place)
    (after : Inside places rest) : Pointing places (readAssignment state place rest) := by
  unfold readAssignment
  split
  · exact pointing_refuse inside _
  · refine (settles_rightHandSide after).bind fun tokens insideTokens => ?_
    split
    · exact pointing_refuse inside _
    · split
      · have items := pointing_expressionItems none insideTokens
        exact Pointing.map (items.bind fun _ => pointing_ok _) _
      · exact pointing_ok _

/-! ## The walk -/

theorem pointing_step (state : State) (inside : places place.place) (after : Inside places rest) :
    Pointing places (step state passed place rest) := by
  unfold step
  split
  · exact pointing_ok _
  · exact pointing_readName state inside after
  · exact (pointing_readArrow state inside).map _
  · exact pointing_readColon state inside after
  · exact (pointing_readModifier state inside).map _
  · exact (pointing_readModifier state inside).map _
  · exact (pointing_readModifier state inside).map _
  · exact pointing_readAssignment state inside after
  · exact (pointing_readLiteral state inside).map _
  · exact (pointing_readLiteral state inside).map _
  · exact (pointing_readLiteral state inside).map _
  · exact (pointing_readLiteral state inside).map _
  · exact (pointing_readLiteral state inside).map _
  · exact pointing_ok _
  · exact (pointing_openBlock state inside).map _
  · exact (pointing_closeBlock state inside).map _
  · exact pointing_refuse inside _

theorem pointing_walk (state : State) (passed : List NumberedToken) (read : Nat)
    {tokens : List NumberedToken} (inside : Inside places tokens) :
    Pointing places (walk state passed read tokens) := by
  induction tokens generalizing state passed read with
  | nil => exact pointing_pastTheEnd
  | cons place rest inductionHypothesis =>
    obtain ⟨insidePlace, insideRest⟩ := inside_cons.mp inside
    unfold walk
    split
    · exact inductionHypothesis _ _ _ insideRest
    · split
      · unfold finish
        split
        · exact pointing_ok _
        · exact pointing_refuse insidePlace _
      · exact (pointing_step state insidePlace insideRest).bind fun _ =>
          inductionHypothesis _ _ _ insideRest

end ParaLang.Annotations
