import Jam.Command.Directory
import Jam.Command.Help
import Jam.Command.Options
import Jam.Command.Run
import Jam.Command.Session
import Jam.Compile
import Jam.Diagnostic
import Jam.Format
import Jam.Grammar.Declaration
import Jam.Grammar.Equations
import Jam.Grammar.Expression
import Jam.Grammar.Fault
import Jam.Grammar.Parser
import Jam.Grammar.Program
import Jam.Grammar.Progress
import Jam.Grammar.Statement
import Jam.Json.Text
import Jam.Json.Value
import Jam.Main
import Jam.Source.Cursor
import Jam.Source.Span
import Jam.Text.Alphabetic
import Jam.Text.CodeRange
import Jam.Text.Numeric
import Jam.Text.SingleLine
import Jam.Token.Basic
import Jam.Token.Kind
import Jam.Token.Scan
import Jam.Token.Table
import Jam.Tree.Basic
import Jam.Tree.Json
import Jam.Tree.Listing
import Jam.Proofs.Grammar.Lookahead
import Jam.Proofs.Grammar.Reads
import Jam.Proofs.Grammar.Soundness.Expression
import Jam.Proofs.Grammar.Soundness.Statement
import Jam.Proofs.Grammar.Completeness.Expression
import Jam.Proofs.Grammar.Completeness.Statement
import Jam.Proofs.Grammar.Accepted
import Jam.Proofs.Grammar.Derives
import Jam.Proofs.Grammar.Sentence.OfTree
import Jam.Proofs.Tree.Kept
import Jam.Proofs.Grammar.Sentence.ToTree
import Jam.Proofs.Grammar.Language
import Jam.Proofs.Grammar.Viable
import Jam.Proofs.Printed
import Jam.Proofs.Source.Position
import Jam.Proofs.Token.LongestMatch
import Jam.Proofs.Token.Scanned
import Jam.Proofs.Token.Lossless
import Jam.Proofs.Tree.Node
import Jam.Proofs.Tree.Invariant
import Jam.Proofs.Json.Within
import Jam.Proofs.Token.Standing
import Jam.Proofs.Tree.Addressed
import Jam.Proofs.Token.Truncated
import Jam.Proofs.Diagnosed
import Jam.Proofs.Grammar.Mirrors
import Jam.Proofs.Grammar.Agreement
import Jam.Proofs.Token.Determined
import Jam.Proofs.Tree.ReadFrom
import Jam.Proofs.Tree.Located
import Jam.Proofs.Tree.Told
import Jam.Proofs.Tree.Outline
import Jam.Proofs.Tree.Legible
import Jam.Proofs.Tree.Details
import Jam.Proofs.Tree.Faded
import Jam.Proofs.Tree.Shown
import Jam.Proofs.Grammar.Concatenation
import Jam.Proofs.Composed
import Jam.Proofs.Token.Separated
import Jam.Proofs.Command.Outcomes
import Jam.Proofs.Grammar.Reader
import Jam.Proofs.Grammar.Script
import Jam.Proofs.Grammar.Scripted
import Jam.Proofs.Grammar.Terminates
import Jam.Proofs.LineEnd
import Jam.Proofs.Grammar.Body
import Jam.Proofs.InputEnd
import Jam.Proofs.Grammar.Blames
import Jam.Proofs.Grammar.Guarded
import Jam.Proofs.Unreported
import Jam.Proofs.Token.Rectangle
import Jam.Proofs.Token.Readable
import Jam.Proofs.Tree.Preorder
import Jam.Proofs.Command.Printing
import Jam.Proofs.Command.Reported
import Jam.Proofs.Source.Cursor
