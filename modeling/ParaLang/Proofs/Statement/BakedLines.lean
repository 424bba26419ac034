import ParaLang.Proofs.Statement.RoundTrip
import ParaLang.Proofs.Value.Strings
import ParaLang.Statement

/-! # Lines of the baked form

The baked form of a text can always be written, and each statement that is kept stands on a line of
its own: no value is displayed with a line feed, and no token inside a statement has one in its
text. -/

namespace ParaLang

/-! ## Texts without line feeds -/

namespace Text

def OneLine (text : String) : Prop :=
  '\n' ∉ text.toList

instance (text : String) : Decidable (OneLine text) :=
  inferInstanceAs (Decidable ('\n' ∉ text.toList))

theorem OneLine.append {text other : String} (first : OneLine text) (second : OneLine other) :
    OneLine (text ++ other) := by
  unfold OneLine at *
  simpa using ⟨first, second⟩

theorem oneLine_join {texts : List String} (each : ∀ text ∈ texts, OneLine text) :
    OneLine (String.join texts) := by
  unfold OneLine at *
  simpa using each

theorem oneLine_words {words : List String} (each : ∀ word ∈ words, OneLine word) :
    OneLine (" ".intercalate words) := by
  induction words with
  | nil => simp [OneLine]
  | cons word words inductionHypothesis =>
    obtain ⟨first, later⟩ := List.forall_mem_cons.mp each
    cases words with
    | nil => simpa using first
    | cons next words =>
      rw [String.intercalate_cons_cons]
      have blank : OneLine " " := by decide
      exact (first.append blank).append (inductionHypothesis later)

theorem OneLine.trimEnd {text : String} (oneLine : OneLine text) : OneLine (Text.trimEnd text) := by
  intro inside
  apply oneLine
  rw [Text.trimEnd, String.toList_ofList, List.mem_reverse] at inside
  exact List.mem_reverse.mp ((List.dropWhile_sublist _).subset inside)

end Text

open Text (OneLine)

/-! ## Values -/

theorem Decimal.IsNumeral.noLineFeed {text : List Char} (isNumeral : IsNumeral text) :
    '\n' ∉ text :=
  fun member => absurd (isNumeral.2 '\n' member) (by decide)

theorem oneLine_natural (value : Nat) : OneLine (toString value) :=
  (Decimal.isNumeral_toString value).noLineFeed

namespace Decimal

theorem noLineFeed_dropTrailingZeros {digits : List Char} (noLineFeed : '\n' ∉ digits) :
    '\n' ∉ dropTrailingZeros digits := by
  intro inside
  rw [dropTrailingZeros, List.mem_reverse] at inside
  exact noLineFeed (List.mem_reverse.mp ((List.dropWhile_sublist _).subset inside))

section Layouts

variable {digits : List Char} (noLineFeed : '\n' ∉ digits)
include noLineFeed

theorem noLineFeed_take (count : Nat) : '\n' ∉ digits.take count :=
  fun inside => noLineFeed (List.mem_of_mem_take inside)

theorem noLineFeed_drop (count : Nat) : '\n' ∉ digits.drop count :=
  fun inside => noLineFeed (List.mem_of_mem_drop inside)

theorem noLineFeed_positional (leading : Int) : '\n' ∉ positional digits leading := by
  unfold positional
  split
  · simp [noLineFeed]
  · simp only [List.mem_append, List.mem_cons, List.mem_replicate, not_or]
    refine ⟨⟨noLineFeed_take noLineFeed _, by simp⟩, by decide, ?_⟩
    split
    · decide
    · exact noLineFeed_drop noLineFeed _

theorem noLineFeed_scientific (layout : Layout) (leading : Int) :
    '\n' ∉ scientific layout digits leading := by
  have exponent := oneLine_natural leading.natAbs
  have fraction : '\n' ∉ (if digits.length ≤ 1 then [] else '.' :: digits.drop 1) := by
    split
    · simp
    · simpa using noLineFeed_drop noLineFeed 1
  have sign : '\n' ∉ ['e', if leading < 0 then '-' else '+'] := by
    split <;> decide
  simp only [scientific, List.mem_append, not_or]
  exact ⟨⟨⟨⟨noLineFeed_take noLineFeed 1, fraction⟩, sign⟩, by simp⟩, exponent⟩

end Layouts

theorem oneLine_text (number : Float) : OneLine (text number) := by
  unfold text textIn
  cases Binary64.ofFloat number with
  | notANumber => decide
  | infinite negative => cases negative <;> decide
  | finite negative mantissa exponent =>
    have signed {unsigned : List Char} (noLineFeed : '\n' ∉ unsigned) :
        OneLine (String.ofList (if negative then '-' :: unsigned else unsigned)) := by
      cases negative <;> simpa [OneLine] using noLineFeed
    apply signed
    split
    · decide
    · have digits := noLineFeed_dropTrailingZeros
        (oneLine_natural (shortest mantissa exponent).1)
      simp only
      split
      · exact noLineFeed_positional digits _
      · exact noLineFeed_scientific digits _ _

end Decimal

theorem Value.oneLine_display (value : Value) : OneLine value.display := by
  cases value with
  | int value =>
    cases value with
    | ofNat value => exact oneLine_natural value
    | negSucc value =>
      have minus : OneLine "-" := by decide
      exact minus.append (oneLine_natural (value + 1))
  | float value => exact Decimal.oneLine_text value
  | string value => exact Value.display_oneLine value
  | bool value => cases value <;> decide
  | null => decide

/-! ## Tokens -/

theorem Lexeme.Closes.noLineFeed {inside : List Char} (closes : Lexeme.Closes inside) :
    '\n' ∉ inside := by
  induction closes with
  | quote => decide
  | escape noLineFeed _ inductionHypothesis =>
    simp [noLineFeed.symm, inductionHypothesis]
  | plain _ noLineFeed _ _ inductionHypothesis =>
    simp [noLineFeed.symm, inductionHypothesis]

/-- The text of a token has no line feed, unless it is a line end itself. -/
theorem Token.WellSpelled.oneLine {token : Token} (spelled : token.WellSpelled) :
    OneLine token.literal := by
  obtain ⟨terminal, spells, -⟩ := spelled
  unfold OneLine
  have continues {character : Char} (isName : Lexeme.continuesName character = true) :
      character ≠ '\n' := by
    rintro rfl
    cases isName
  cases terminal with
  | name =>
    obtain ⟨first, others, isText, starts, inside⟩ := spells
    rw [isText, List.mem_cons, not_or]
    exact ⟨(continues (Lexeme.continuesName_of_startsName starts)).symm,
      fun member => continues (inside _ member) rfl⟩
  | number =>
    rcases spells with whole | ⟨whole, fraction, isText, isWhole, isFraction⟩
    · exact whole.noLineFeed
    · rw [isText, List.mem_append, List.mem_cons, not_or, not_or]
      exact ⟨isWhole.noLineFeed, by decide, isFraction.noLineFeed⟩
  | string =>
    obtain ⟨inside, isText, closed⟩ := spells
    rw [isText, List.mem_cons, not_or]
    exact ⟨by decide, (Lexeme.closes_of_closeString closed).noLineFeed⟩
  | arrow =>
    have isText : token.literal.toList = ['-', '>'] := spells
    rw [isText]
    decide
  | symbol character =>
    obtain ⟨isText, symbol⟩ := spells
    rw [isText, List.mem_singleton]
    exact (Lexeme.not_blank_of_isSymbol symbol).2.2.symm
  | comment | lineEnds | blanks => exact spells.elim

namespace AnnotatedToken

open Statement (bakeItem bakeToken renderToken)

/-- In the baked form a token can be written and has no line feed, whatever the tree holds. -/
def BakesInLine (token : AnnotatedToken) : Prop :=
  ∀ root, ∃ text, bakeToken root token = .ok text ∧ OneLine text

theorem bakesInLine_of_value {token : AnnotatedToken} {value : Value}
    (isValue : token.role = .value) (given : token.value = some value) : token.BakesInLine := by
  intro root
  refine ⟨value.display ++ " ", ?_, value.oneLine_display.append (by decide)⟩
  simp [bakeToken, renderToken, isValue, given]

theorem bakesInLine_of_items {token : AnnotatedToken} {items : List AnnotatedToken}
    (isExpression : token.role = .expression) (given : token.expression = some items)
    (spelled : ∀ item ∈ items, OneLine item.literal) : token.BakesInLine := by
  intro root
  have item : ∀ item ∈ items, OneLine (bakeItem root item) := by
    intro item member
    unfold bakeItem
    split
    · split
      · exact Value.oneLine_display _
      · exact spelled item member
    · exact spelled item member
  have words := Text.oneLine_words (List.forall_mem_map.mpr item)
  refine ⟨_, ?_, words.append (by decide : OneLine " ")⟩
  simp [bakeToken, isExpression, given]

theorem bakesInLine_of_presentable {token : AnnotatedToken} (presentable : token.Presentable) :
    token.BakesInLine := by
  have written (other : token.role ≠ .expression) {text : String}
      (renders : renderToken token = .ok text) (oneLine : OneLine text) : token.BakesInLine :=
    fun root => ⟨text, by rw [bakeToken, if_neg other, renders], oneLine⟩
  have blank : OneLine " " := by decide
  -- one text for each role; only values and expressions depend on the tree
  cases role : token.role with
  | value =>
    simp only [Presentable, role] at presentable
    obtain ⟨value, given, -⟩ := presentable
    exact bakesInLine_of_value role given
  | expression =>
    simp only [Presentable, role] at presentable
    obtain ⟨items, given, -, spelled⟩ := presentable
    exact bakesInLine_of_items role given fun item member => (spelled item member).oneLine
  | arrow => exact written (by simp [role]) (by rw [renderToken, role]) (by decide)
  | group =>
    simp only [Presentable, role] at presentable
    have arrow : OneLine "-> " := by decide
    exact written (by simp [role]) (by rw [renderToken, role]; rfl)
      (presentable.oneLine.append arrow)
  | type =>
    simp only [Presentable, role] at presentable
    have colon : OneLine ":" := by decide
    exact written (by simp [role]) (by rw [renderToken, role]; rfl)
      ((colon.append presentable.oneLine).append blank)
  | identifier =>
    simp only [Presentable, role] at presentable
    have modifiers : ∀ word ∈ token.modifiers, OneLine word := by
      rw [← map_literal_modifierTokens]
      exact List.forall_mem_map.mpr fun modifier member =>
        (token.wellSpelled_modifierTokens modifier member).oneLine
    have words := Text.oneLine_words
      (List.forall_mem_cons.mpr ⟨presentable.oneLine, modifiers⟩)
    exact written (by simp [role]) (by rw [renderToken, role]; rfl) (words.append blank)
  | lookup | assign | inspect =>
    simp only [Presentable, role] at presentable
    exact written (by simp [role]) (by rw [renderToken, role]; rfl)
      (presentable.oneLine.append blank)
  | _ =>
    simp only [Presentable, role] at presentable

end AnnotatedToken

/-! ## Annotated texts -/

namespace Annotations

open Grammar

theorem bakesInLine_of_origin {frames : List Frame} {leaves : List NumberedToken}
    {token : AnnotatedToken} (spelledFrames : SpelledFrames frames) (spelled : Spelled leaves)
    (origin : Origin frames leaves token) : token.BakesInLine := by
  by_cases displayed : Displayed token
  · exact AnnotatedToken.bakesInLine_of_presentable
      (presentable_of_origin spelledFrames spelled origin displayed)
  · simp only [Displayed, Classical.not_imp, not_forall] at displayed
    obtain ⟨isValue, value, given, -⟩ := displayed
    exact AnnotatedToken.bakesInLine_of_value isValue given

theorem SpelledLine.bakesInLine {statement : List AnnotatedToken}
    (spelledLine : SpelledLine statement) : ∀ token ∈ statement, token.BakesInLine := by
  obtain ⟨-, frames, statement, sound, spelledFrames, spelled, rfl⟩ := spelledLine
  intro token member
  exact bakesInLine_of_origin spelledFrames spelled (origin_statement sound token member)

end Annotations

/-! ## Lines -/

namespace Statement

variable (root : Scope)

theorem exists_bakeTokens (groups : List String) {tokens : List AnnotatedToken}
    (each : ∀ token ∈ tokens, token.BakesInLine) (afterAssign : Bool) (read : Nat) :
    ∃ texts, bakeTokens root groups afterAssign read tokens = .ok texts ∧
      ∀ text ∈ texts, OneLine text := by
  induction tokens generalizing afterAssign read with
  | nil => exact ⟨[], rfl, by simp⟩
  | cons token rest inductionHypothesis =>
    obtain ⟨first, later⟩ := List.forall_mem_cons.mp each
    cases read with
    | succ read =>
      rw [bakeTokens]
      exact inductionHypothesis later false read
    | zero =>
      rw [bakeTokens]
      split
      · next found _ =>
        obtain ⟨texts, baked, oneLine⟩ := inductionHypothesis later false
          (pathWidth (pathAt (token :: rest)) - 1)
        have blank : OneLine " " := by decide
        exact ⟨_, by rw [baked]; rfl, List.forall_mem_cons.mpr
          ⟨found.value.oneLine_display.append blank, oneLine⟩⟩
      · obtain ⟨text, written, isLine⟩ := first root
        obtain ⟨texts, baked, oneLine⟩ := inductionHypothesis later (token.role == .assign) 0
        exact ⟨text :: texts, by rw [written, Result.ok_bind, baked]; rfl,
          List.forall_mem_cons.mpr ⟨isLine, oneLine⟩⟩

theorem exists_bake {statement : List AnnotatedToken}
    (each : ∀ token ∈ statement, token.BakesInLine) :
    ∃ line, bake root statement = .ok line ∧ OneLine line := by
  have written (groups : List String) : ∃ line,
      (do return Text.trimEnd (String.join (← bakeTokens root groups false 0 statement))) =
        Except.ok line ∧ OneLine line := by
    obtain ⟨texts, baked, oneLine⟩ := exists_bakeTokens root groups each false 0
    refine ⟨Text.trimEnd (String.join texts), ?_, (Text.oneLine_join oneLine).trimEnd⟩
    rw [baked]
    rfl
  exact written _

end Statement

/-- Results that are there one by one are there all together. -/
theorem exists_mapM {α β : Type} {function : α → Except Fault β} {related : β → Prop}
    {items : List α}
    (each : ∀ item ∈ items, ∃ result, function item = .ok result ∧ related result) :
    ∃ results, items.mapM function = .ok results ∧
      List.Forall₂ (fun item result => function item = .ok result ∧ related result)
        items results := by
  induction items with
  | nil => exact ⟨[], rfl, .nil⟩
  | cons item items inductionHypothesis =>
    obtain ⟨⟨result, given, holds⟩, later⟩ := List.forall_mem_cons.mp each
    obtain ⟨results, all, relates⟩ := inductionHypothesis later
    refine ⟨result :: results, ?_, .cons ⟨given, holds⟩ relates⟩
    simp [List.mapM_cons, given, all]

/-- The statements of an annotated text that are kept are written one after another, each on a line
of its own. -/
theorem exists_renderBaked {source : String} {written : List AnnotatedToken}
    (annotated : annotateSource source = .ok written) (root : Scope) :
    ∃ lines, renderBaked written root = .ok (Text.unlines lines) ∧
      List.Forall₂ (fun statement line => Statement.bake root statement = .ok line ∧ OneLine line)
        ((statements written).filter fun statement => !Statement.definesTemporary root statement)
        lines := by
  have each : ∀ statement ∈ (statements written).filter fun statement =>
      !Statement.definesTemporary root statement,
      ∃ line, Statement.bake root statement = .ok line ∧ OneLine line := by
    intro statement member
    have spelledLine := spelledLine_of_annotateSource annotated statement
      (List.mem_of_mem_filter member)
    exact Statement.exists_bake root spelledLine.bakesInLine
  obtain ⟨lines, baked, related⟩ := exists_mapM each
  refine ⟨lines, ?_, related⟩
  rw [renderBaked, baked]
  rfl

end ParaLang
