import ParaLang.Main
import ParaLang.Proofs.Alike
import ParaLang.Proofs.Annotations.Acceptance
import ParaLang.Proofs.Annotations.Assignments
import ParaLang.Proofs.Annotations.Blocks
import ParaLang.Proofs.Annotations.Columns
import ParaLang.Proofs.Annotations.Contents
import ParaLang.Proofs.Annotations.Exchange
import ParaLang.Proofs.Annotations.Extraction
import ParaLang.Proofs.Annotations.Halting
import ParaLang.Proofs.Annotations.Lines
import ParaLang.Proofs.Annotations.Locations
import ParaLang.Proofs.Annotations.Preservation
import ParaLang.Proofs.Annotations.Programs
import ParaLang.Proofs.Annotations.Qualification
import ParaLang.Proofs.Annotations.Questions
import ParaLang.Proofs.Annotations.Rearrangement
import ParaLang.Proofs.Annotations.Refusal
import ParaLang.Proofs.Annotations.Renumbering
import ParaLang.Proofs.Annotations.Seams
import ParaLang.Proofs.Annotations.Shape
import ParaLang.Proofs.Annotations.Sources
import ParaLang.Proofs.Annotations.Statements
import ParaLang.Proofs.Annotations.Syntax
import ParaLang.Proofs.Decimal.Contents
import ParaLang.Proofs.Decimal.Digits
import ParaLang.Proofs.Decimal.Nearest
import ParaLang.Proofs.Decimal.Numerals
import ParaLang.Proofs.Decimal.Positional
import ParaLang.Proofs.Expression.Infix
import ParaLang.Proofs.Expression.Integers
import ParaLang.Proofs.Expression.Names
import ParaLang.Proofs.Expression.Parentheses
import ParaLang.Proofs.Expression.Places
import ParaLang.Proofs.Expression.Promotion
import ParaLang.Proofs.Expression.Rendering
import ParaLang.Proofs.Expression.Soundness
import ParaLang.Proofs.Interpretation.Blame
import ParaLang.Proofs.Interpretation.Deeds
import ParaLang.Proofs.Interpretation.Essence
import ParaLang.Proofs.Interpretation.Exchange
import ParaLang.Proofs.Interpretation.Growth
import ParaLang.Proofs.Interpretation.Likeness
import ParaLang.Proofs.Interpretation.LineEnds
import ParaLang.Proofs.Interpretation.Locations
import ParaLang.Proofs.Interpretation.Marks
import ParaLang.Proofs.Interpretation.References
import ParaLang.Proofs.Interpretation.Runs
import ParaLang.Proofs.Interpretation.Seams
import ParaLang.Proofs.Interpretation.Soundness
import ParaLang.Proofs.Path
import ParaLang.Proofs.Scope.Agreement
import ParaLang.Proofs.Scope.Assigning
import ParaLang.Proofs.Scope.Contents
import ParaLang.Proofs.Scope.Distinct
import ParaLang.Proofs.Scope.Encoding
import ParaLang.Proofs.Scope.Likeness
import ParaLang.Proofs.Scope.Listing
import ParaLang.Proofs.Session
import ParaLang.Proofs.Statement.BakedPrograms
import ParaLang.Proofs.Statement.Dropping
import ParaLang.Proofs.Statement.Flat
import ParaLang.Proofs.Statement.Rereading
import ParaLang.Proofs.Statement.RoundTrip
import ParaLang.Proofs.Token.Rescanning
import ParaLang.Proofs.Token.Spacing
import ParaLang.Proofs.Token.Spelling
import ParaLang.Proofs.Token.Stopping
import ParaLang.Proofs.Token.Tiling
import ParaLang.Proofs.Value.Display
import ParaLang.Proofs.Value.Strings
import ParaLang.Session
