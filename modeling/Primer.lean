import Primer.Builtin
import Primer.Checker
import Primer.Checker.Analysis
import Primer.Checker.Infer
import Primer.Checker.Judged
import Primer.Command
import Primer.Decimal.Binary
import Primer.Decimal.Layout
import Primer.Decimal.Reader
import Primer.Decimal.Shortest
import Primer.Diagnostic
import Primer.Effect
import Primer.Expr
import Primer.Fault
import Primer.Grammar.Cursor
import Primer.Grammar.Expression
import Primer.Grammar.Power
import Primer.Grammar.Statement
import Primer.Listing
import Primer.Machine
import Primer.Machine.Eval
import Primer.Machine.Execution
import Primer.Machine.Job
import Primer.Main
import Primer.Position
import Primer.Proofs.Absorption
import Primer.Proofs.Accords
import Primer.Proofs.Agreement
import Primer.Proofs.Appended
import Primer.Proofs.Balance
import Primer.Proofs.Bracketing
import Primer.Proofs.CallFree
import Primer.Proofs.Caret
import Primer.Proofs.CaseBlind
import Primer.Proofs.CheckedRun
import Primer.Proofs.CheckedTwins
import Primer.Proofs.CheckerBalance
import Primer.Proofs.Composed
import Primer.Proofs.Conclusion
import Primer.Proofs.Course
import Primer.Proofs.Declared
import Primer.Proofs.Delivery
import Primer.Proofs.DepthLimit
import Primer.Proofs.Exponent
import Primer.Proofs.Fallthrough
import Primer.Proofs.FirstCall
import Primer.Proofs.Fuel
import Primer.Proofs.GlobalRows
import Primer.Proofs.History
import Primer.Proofs.Holes
import Primer.Proofs.IndexedWrite
import Primer.Proofs.Inference
import Primer.Proofs.Invariant
import Primer.Proofs.Isolation
import Primer.Proofs.Lexeme
import Primer.Proofs.Listed
import Primer.Proofs.Nodes
import Primer.Proofs.OneMistake
import Primer.Proofs.Partition
import Primer.Proofs.Placement
import Primer.Proofs.PlainJudgements
import Primer.Proofs.Prelude
import Primer.Proofs.Preserves
import Primer.Proofs.PrintedInts
import Primer.Proofs.Proper
import Primer.Proofs.ReadComplete
import Primer.Proofs.ReadEnds
import Primer.Proofs.ReadPlaced
import Primer.Proofs.ReadRespelled
import Primer.Proofs.ReadSound
import Primer.Proofs.Recased
import Primer.Proofs.Recording
import Primer.Proofs.Rendering
import Primer.Proofs.Reported
import Primer.Proofs.Resolution
import Primer.Proofs.Resolved
import Primer.Proofs.Respect
import Primer.Proofs.Respelling
import Primer.Proofs.ScopeOperations
import Primer.Proofs.Search
import Primer.Proofs.Signals
import Primer.Proofs.Soundness
import Primer.Proofs.Spelling
import Primer.Proofs.StoreTyping
import Primer.Proofs.Stretch
import Primer.Proofs.Tally
import Primer.Proofs.Tracking
import Primer.Proofs.Travel
import Primer.Proofs.Twins
import Primer.Proofs.TypeNames
import Primer.Proofs.TypedRun
import Primer.Proofs.Unwinding
import Primer.Proofs.Walk
import Primer.Proofs.Watch
import Primer.Scope
import Primer.Session
import Primer.Stmt
import Primer.Symbol
import Primer.Text.Blank
import Primer.Text.Combining
import Primer.Text.Fold
import Primer.Text.Line
import Primer.Text.Lower
import Primer.Text.Quoted
import Primer.Text.Search
import Primer.Text.Unprintable
import Primer.Token
import Primer.Token.Escape
import Primer.Token.Lexer
import Primer.Ty
import Primer.Value
import Primer.Value.Element
import Primer.Value.Operator
import Primer.Value.Store
