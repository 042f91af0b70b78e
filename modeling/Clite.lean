import Clite.Parser.Session
import Clite.Parser.Descent
import Clite.Pipeline
import Clite.Proofs.Lexing.Partition
import Clite.Proofs.Lexing.Cutting
import Clite.Proofs.Lexing.Reports
import Clite.Proofs.Lexing.Terminals
import Clite.Proofs.Lexing.Maximality
import Clite.Proofs.Lexing.Layout
import Clite.Proofs.Lexing.Lines
import Clite.Proofs.Lexing.Blanking
import Clite.Proofs.Lexing.Shift
import Clite.Proofs.Lexing.Sessions
import Clite.Proofs.Lexing.Places
import Clite.Proofs.Lexing.ExprText
import Clite.Proofs.Parsing.Literal
import Clite.Proofs.Parsing.Numerals
import Clite.Proofs.Parsing.Clean
import Clite.Proofs.Parsing.Reports
import Clite.Proofs.Parsing.ReportOrder
import Clite.Proofs.Parsing.Places
import Clite.Proofs.Parsing.Tally
import Clite.Proofs.Parsing.Additions
import Clite.Proofs.Parsing.Chains
import Clite.Proofs.Parsing.Alike
import Clite.Proofs.Parsing.Descent
import Clite.Proofs.Parsing.Steps
import Clite.Proofs.Parsing.TokenList
import Clite.Proofs.Parsing.Expression
import Clite.Proofs.Parsing.Returns
import Clite.Proofs.Parsing.Progress
import Clite.Proofs.Parsing.Recovery
import Clite.Proofs.Parsing.Trees
import Clite.Proofs.Parsing.Blame
import Clite.Proofs.Parsing.Frontier
import Clite.Proofs.Parsing.Remaining
import Clite.Proofs.Parsing.Nesting
import Clite.Proofs.Parsing.Braces
import Clite.Proofs.Parsing.RoundTrip
import Clite.Proofs.Parsing.UniqueText
import Clite.Proofs.Parsing.Statement
import Clite.Proofs.Parsing.Concatenation
import Clite.Proofs.Parsing.Program
import Clite.Proofs.Tree.Preorder
import Clite.Proofs.Tree.Parts
import Clite.Proofs.Tree.WellFormed
import Clite.Proofs.Tree.Visits
import Clite.Proofs.Typing.Declarations
import Clite.Proofs.Typing.Memo
import Clite.Proofs.Typing.Faults
import Clite.Proofs.Typing.WellTyped
import Clite.Proofs.Typing.Lenient
import Clite.Proofs.Typing.Independence
import Clite.Proofs.Outcomes
import Clite.Proofs.Trace
