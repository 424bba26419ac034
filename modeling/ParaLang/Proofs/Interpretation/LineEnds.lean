import ParaLang.Interpretation
import ParaLang.Proofs.Annotations.Columns
import ParaLang.Proofs.Token.Returns
import ParaLang.Text

/-! # Line ends do not matter

Whether lines end with a line feed alone or with a carriage return in front of it, the program is
the same: its tokens differ at most in the columns at which lines end, and those are read by nobody.
Reading the text from a file leaves out the carriage returns and changes nothing either. -/

namespace ParaLang

theorem Text.unifyLineEnds_returns {source other : List Char} (plain : '\r' ∉ source)
    (returns : Returns source other) : unifyLineEnds other = source := by
  induction returns with
  | nil => rfl
  | @keep character source other _ inductionHypothesis =>
    rw [List.mem_cons, not_or] at plain
    have noReturn : character ≠ '\r' := Ne.symm plain.1
    rw [unifyLineEnds.eq_3 _ _ (fun _ isReturn _ => noReturn isReturn) noReturn,
      inductionHypothesis plain.2]
  | insert _ inductionHypothesis =>
    rw [List.mem_cons, not_or] at plain
    rw [unifyLineEnds, inductionHypothesis plain.2]

theorem Text.normalised_returns {source other : String} (plain : '\r' ∉ source.toList)
    (returns : Returns source.toList other.toList) : normalised other = source := by
  rw [normalised, unifyLineEnds_returns plain returns, String.ofList_toList]

theorem Token.withoutColumn_withoutBreakColumn (token : Token) :
    token.withoutBreakColumn.withoutColumn = token.withoutColumn := by
  unfold withoutBreakColumn
  split <;> rfl

/-- Tokens that agree but for the columns at which lines end are annotated alike. -/
theorem annotate_congr {tokens others : List Token}
    (same : others.map Token.withoutBreakColumn = tokens.map Token.withoutBreakColumn) :
    annotate others = annotate tokens := by
  have withoutColumns : others.map Token.withoutColumn = tokens.map Token.withoutColumn := by
    have erased := congrArg (List.map Token.withoutColumn) same
    simpa [Function.comp_def, Token.withoutColumn_withoutBreakColumn] using erased
  rw [← annotate_withoutColumn others, withoutColumns, annotate_withoutColumn]

theorem annotateSource_returns {source other : String} (plain : '\r' ∉ source.toList)
    (returns : Returns source.toList other.toList) :
    annotateSource other = annotateSource source := by
  have same := Token.tokenize_returns plain returns
  unfold annotateSource
  cases read : Token.tokenize source <;> cases otherRead : Token.tokenize other <;>
    rw [read, otherRead] at same
  case error.error => exact congrArg Except.error (Except.error.inj same)
  case ok.ok => exact annotate_congr (Except.ok.inj same)
  all_goals cases same

/-- A program whose lines end with a line feed, and the same program with carriage returns in front
of any of them: the same tokens but for the columns at which lines end, or the same diagnostic; the
same annotated tokens; and the same run, from the text as it is and from a file that holds it. -/
theorem runProgram_returns {source other : String} (plain : '\r' ∉ source.toList)
    (returns : Returns source.toList other.toList) :
    (Token.tokenize other).map (·.map Token.withoutBreakColumn) =
        (Token.tokenize source).map (·.map Token.withoutBreakColumn) ∧
      annotateSource other = annotateSource source ∧
      ∀ verbosity, runProgram verbosity other = runProgram verbosity source ∧
        runProgram verbosity (Text.normalised other) = runProgram verbosity other := by
  have annotated := annotateSource_returns plain returns
  refine ⟨Token.tokenize_returns plain returns, annotated, fun verbosity => ?_⟩
  have run : runProgram verbosity other = runProgram verbosity source := by
    unfold runProgram
    rw [annotated]
  exact ⟨run, by rw [Text.normalised_returns plain returns, run]⟩

/-- Carriage returns behind a line comment, in a block comment, behind blanks and in line ends. -/
theorem runProgram_returns_everywhere :
    let source := "a = 1 // one\n\n/*\n*/ b = 2 \nb ?\n"
    let other := "a = 1 // one\r\n\n/*\r\n*/ b = 2 \r\nb ?\r\n"
    '\r' ∉ source.toList ∧ Returns source.toList other.toList ∧
      (Token.tokenize other).map (·.map Token.withoutBreakColumn) =
        (Token.tokenize source).map (·.map Token.withoutBreakColumn) ∧
      annotateSource other = annotateSource source ∧
      ∀ verbosity, runProgram verbosity other = runProgram verbosity source ∧
        runProgram verbosity (Text.normalised other) = runProgram verbosity other := by
  intro source other
  have plain : '\r' ∉ source.toList := by decide
  have returns : Returns source.toList other.toList := by
    dsimp only [source, other]
    repeat first | exact .nil | apply Returns.insert | apply Returns.keep
  exact ⟨plain, returns, runProgram_returns plain returns⟩

end ParaLang
