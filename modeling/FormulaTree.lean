import FormulaTree.Arity
import FormulaTree.Attempt
import FormulaTree.Command
import FormulaTree.CommandLine
import FormulaTree.Diagnostic
import FormulaTree.Excerpt
import FormulaTree.Expr.Basic
import FormulaTree.Expr.Grammar
import FormulaTree.Expr.SyntaxError
import FormulaTree.Failure
import FormulaTree.Field
import FormulaTree.Json.Basic
import FormulaTree.Json.Read
import FormulaTree.Json.Write
import FormulaTree.Keyword
import FormulaTree.Lowering
import FormulaTree.Main
import FormulaTree.Number.Basic
import FormulaTree.Number.Rounding
import FormulaTree.Number.Shortest
import FormulaTree.Number.Text
import FormulaTree.Operator
import FormulaTree.Position
import FormulaTree.Proofs.Grammar.Completeness
import FormulaTree.Proofs.Grammar.Derivation
import FormulaTree.Proofs.Grammar.Exactness
import FormulaTree.Proofs.Grammar.Soundness
import FormulaTree.Proofs.Grammar.Steps
import FormulaTree.Proofs.Lowering.Outcome
import FormulaTree.Proofs.Tree.Shape
import FormulaTree.Reader
import FormulaTree.Style
import FormulaTree.Term
import FormulaTree.Text.Alphabetic
import FormulaTree.Text.Blank
import FormulaTree.Text.Hex
import FormulaTree.Text.Lines
import FormulaTree.Text.Numeric
import FormulaTree.Text.Quoted
import FormulaTree.Text.Ranges
import FormulaTree.Token.Basic
import FormulaTree.Token.Numeral
import FormulaTree.Token.Scan
import FormulaTree.Token.Scanned
import FormulaTree.Token.Trivia
import FormulaTree.Tree.Basic
import FormulaTree.Tree.Call
import FormulaTree.Tree.Json
import FormulaTree.Proofs.Number.Nearest
import FormulaTree.Proofs.Number.Written
import FormulaTree.Proofs.Token.Spelling
import FormulaTree.Proofs.Term.Spelling
import FormulaTree.Proofs.Lowering.Meaning
import FormulaTree.Proofs.Term.Meaning
import FormulaTree.Proofs.Tree.Completion
import FormulaTree.Proofs.Term.Layout
import FormulaTree.Proofs.Term.Equality
import FormulaTree.Proofs.RoundTrip
import FormulaTree.Proofs.Position
import FormulaTree.Proofs.Token.Apart
import FormulaTree.Proofs.Token.Partition
import FormulaTree.Proofs.Json.Numeral
import FormulaTree.Proofs.Json.Restored
import FormulaTree.Proofs.Tree.Stored
import FormulaTree.Proofs.Lowering.Stored
import FormulaTree.Proofs.Grammar.Placement
import FormulaTree.Proofs.Lowering.Offences
import FormulaTree.Proofs.Statements
import FormulaTree.Proofs.Grammar.Height
import FormulaTree.Proofs.Lowering.DepthLimit
import FormulaTree.Proofs.Lowering.Building
import FormulaTree.Proofs.Lowering.Built
import FormulaTree.Proofs.Lowering.TreeDepth
import FormulaTree.Proofs.Lowering.TreeSize
import FormulaTree.Proofs.Tree.Read
import FormulaTree.Proofs.Text.Lines
import FormulaTree.Proofs.Excerpt
import FormulaTree.Proofs.Token.Blame
import FormulaTree.Proofs.Grammar.Blame
import FormulaTree.Proofs.Lowering.Shown
import FormulaTree.Proofs.Tree.Cases
import FormulaTree.Proofs.Term.Flat
import FormulaTree.Proofs.Command.Check
import FormulaTree.Proofs.Grammar.Stalling
import FormulaTree.Proofs.ViablePrefix
import FormulaTree.Proofs.Tree.Outputs
import FormulaTree.Proofs.Token.LineEnds
import FormulaTree.Proofs.Command.Trimming
import FormulaTree.Proofs.Extent
