import Lox.Console.Simulated
import Lox.Main
import Lox.Proofs.Grammar.Completeness
import Lox.Proofs.Grammar.Acceptance
import Lox.Proofs.Syntax.Height
import Lox.Proofs.Grammar.Nesting
import Lox.Proofs.Source.Lexeme
import Lox.Proofs.Source.LongestMatch
import Lox.Proofs.Source.Tokenization
import Lox.Proofs.Execution.Evolution
import Lox.Proofs.Execution.FrameLaw
import Lox.Proofs.Session.Run
import Lox.Proofs.Session.Ending
import Lox.Proofs.Execution.Scope
import Lox.Proofs.Grammar.Placement
import Lox.Proofs.Execution.Reach
import Lox.Proofs.Execution.LexicalScope
import Lox.Proofs.Session.Calls
import Lox.Proofs.Session.Flags
import Lox.Proofs.Grammar.Matching
import Lox.Proofs.Execution.Matching
import Lox.Proofs.Execution.Fuel
import Lox.Proofs.Session.Recorded
import Lox.Proofs.Session.ReportLines
import Lox.Proofs.Session.Rejection
import Lox.Proofs.Session.Batch
import Lox.Proofs.Session.Layout
import Lox.Proofs.Execution.Origin
import Lox.Proofs.Grammar.WellFormed
import Lox.Proofs.Execution.Closure
import Lox.Proofs.Execution.Seam
import Lox.Proofs.Execution.ForLoop
import Lox.Proofs.Execution.Truncation
import Lox.Proofs.Execution.Braces
import Lox.Proofs.Source.Lines
import Lox.Proofs.Session.Diagnostics
import Lox.Proofs.Number.Magnitude
import Lox.Proofs.Number.Shortest
import Lox.Proofs.Number.Bits
import Lox.Proofs.Number.Text
import Lox.Proofs.Session.Literals
import Lox.Proofs.Console.Lines
import Lox.Proofs.Session.Lifting
import Lox.Proofs.Command.Prompt
import Lox.Proofs.Grammar.Ending
import Lox.Proofs.Grammar.Concatenation
import Lox.Proofs.Grammar.Closure
import Lox.Proofs.Grammar.Misplaced
import Lox.Proofs.Grammar.Recovery
import Lox.Proofs.Grammar.FirstError
import Lox.Proofs.Source.Concatenation
import Lox.Proofs.Source.Rescanning
import Lox.Proofs.Source.LineNumbers
import Lox.Proofs.Cursor.FirstEnd
import Lox.Proofs.Environment.History
import Lox.Proofs.Session.Readability
import Lox.Proofs.Cursor.Discipline
