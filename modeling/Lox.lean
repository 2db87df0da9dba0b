import Lox.Double
import Lox.Decimal.Basic
import Lox.Decimal.Shortest
import Lox.Decimal.Layout
import Lox.Value
import Lox.Token.Basic
import Lox.Diagnostic
import Lox.Token.Scan
import Lox.Tree.Basic
import Lox.Tree.Step
import Lox.Tree.Expression
import Lox.Tree.Statement
import Lox.Tree.Program
import Lox.Tree.Cursor
import Lox.Env
import Lox.Eval
import Lox.Session
import Lox.Text.Ranges
import Lox.Text.Blank
import Lox.Text.Digit
import Lox.Text.Unassigned
import Lox.Text.Printable
import Lox.Text.Quote
import Lox.Text.Lines
import Lox.Command.Console
import Lox.Command.Arguments
import Lox.Command.Repl
import Lox.Command.Folder
import Lox.Command.Basic
import Lox.Main
import Lox.Proofs.Reading
import Lox.Proofs.Grammar
import Lox.Proofs.Statements
import Lox.Proofs.Conduct
import Lox.Proofs.Acceptance
import Lox.Proofs.Pieces
import Lox.Proofs.Counting
import Lox.Proofs.Reporting
import Lox.Proofs.Safety
import Lox.Proofs.Recovery
import Lox.Proofs.Labels
import Lox.Proofs.Script
import Lox.Proofs.Blame
import Lox.Proofs.Viability
import Lox.Proofs.Lexemes
import Lox.Proofs.Tiling
import Lox.Proofs.Spacing
import Lox.Proofs.Parentheses
import Lox.Proofs.Gate
import Lox.Proofs.Dialogue
import Lox.Proofs.ExitCode
import Lox.Proofs.Progress
import Lox.Proofs.Account
import Lox.Proofs.Location
import Lox.Proofs.Observers
import Lox.Proofs.Strays
import Lox.Proofs.Payment
import Lox.Proofs.Occurrence
import Lox.Proofs.Insertion
import Lox.Proofs.Resumption
import Lox.Proofs.Spans
import Lox.Proofs.Longest
import Lox.Proofs.Lines
import Lox.Proofs.Nesting
import Lox.Proofs.Bindings
import Lox.Proofs.Interference
import Lox.Proofs.Renaming
import Lox.Proofs.Doubles
import Lox.Proofs.Numerals
import Lox.Proofs.Forms
import Lox.Proofs.Rendering
