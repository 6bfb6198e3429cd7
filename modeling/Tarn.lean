import Tarn.Text.Bytes
import Tarn.Text.Blank
import Tarn.Text.Quoted
import Tarn.Decimal.Printer
import Tarn.Decimal.Reader
import Tarn.Source.Lines
import Tarn.Name
import Tarn.Token.Basic
import Tarn.Token.Lexeme
import Tarn.Token.Lexer
import Tarn.Report.Diagnostic
import Tarn.Syntax.Sexpr
import Tarn.Syntax.Cursor
import Tarn.Syntax.Program
import Tarn.Report.Terminal
import Tarn.Machine.Run
import Tarn.Session
import Tarn.Main
import Tarn.Proofs.Parsing.Acceptance
import Tarn.Proofs.Lexing.Scan
import Tarn.Proofs.Semantics.Refinement
import Tarn.Proofs.Semantics.Origin
import Tarn.Proofs.Session.TopLevel
import Tarn.Proofs.Session.Refusal
import Tarn.Proofs.Session.Interning
import Tarn.Proofs.Session.InTurn
import Tarn.Proofs.Session.Termination
import Tarn.Proofs.Parsing.Errors
import Tarn.Proofs.Session.Labels
import Tarn.Proofs.Parsing.Abreast
import Tarn.Proofs.Parsing.Locality
import Tarn.Proofs.Parsing.StatementLocality
import Tarn.Proofs.Parsing.Progress
import Tarn.Proofs.Parsing.Chunks
import Tarn.Proofs.Parsing.Fidelity
import Tarn.Proofs.Semantics.Depth
import Tarn.Proofs.Bare.Sessions
import Tarn.Proofs.Parsing.Diagnostics
import Tarn.Proofs.Parsing.Precedence
import Tarn.Proofs.Parsing.Boundaries
import Tarn.Proofs.Scoping.Thinning
import Tarn.Proofs.Scoping.Tracks
import Tarn.Proofs.Scoping.Running
import Tarn.Proofs.Scoping.Bindings
import Tarn.Proofs.Scoping.ForLoops
import Tarn.Proofs.Scoping.Confinement
import Tarn.Proofs.Scoping.Chains
import Tarn.Proofs.Scoping.Assignment
import Tarn.Proofs.Scoping.Operations
import Tarn.Proofs.Scoping.Forest
import Tarn.Proofs.Grammar.Names
import Tarn.Proofs.Unnamed.Machines
import Tarn.Proofs.Unnamed.Running
import Tarn.Proofs.Unnamed.Acts
import Tarn.Proofs.Unnamed.Sessions
import Tarn.Proofs.Unnamed.Globals
import Tarn.Proofs.Lexing.Spellings
import Tarn.Proofs.Names.Interning
import Tarn.Proofs.Printing.Identity
import Tarn.Proofs.Lines.Table
import Tarn.Proofs.Lines.Ranges
import Tarn.Proofs.Lines.Snippets
import Tarn.Proofs.Logging.Calls
import Tarn.Proofs.Logging.Running
import Tarn.Proofs.Logging.Groups
import Tarn.Proofs.Parsing.Recovery
import Tarn.Proofs.Parsing.Nesting
