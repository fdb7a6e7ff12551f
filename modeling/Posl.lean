import Posl.Json.Read
import Posl.Main
import Posl.Session
import Posl.Proofs.Grammar.Written
import Posl.Proofs.Grammar.Blank
import Posl.Proofs.Grammar.Movable
import Posl.Proofs.Grammar.Sound
import Posl.Proofs.Grammar.Readers
import Posl.Proofs.Grammar.Complete
import Posl.Proofs.Grammar.Acceptance
import Posl.Proofs.Grammar.ErrorPosition
import Posl.Proofs.RoundTrip
import Posl.Proofs.ReadClauses
import Posl.Proofs.QueryDecisions
import Posl.Proofs.SymbolTable
import Posl.Proofs.Routing
import Posl.Proofs.Lines
import Posl.Proofs.Serving
import Posl.Proofs.Workspace
import Posl.Proofs.Comparison
import Posl.Proofs.Truncation
import Posl.Proofs.Programs
import Posl.Proofs.DerivedFacts
import Posl.Proofs.Catalog
import Posl.Proofs.Chronicle
import Posl.Proofs.Numbering
import Posl.Proofs.Arithmetic
import Posl.Proofs.Literals
import Posl.Proofs.JsonForms
import Posl.Proofs.JsonRecords
import Posl.Proofs.BoundResults
import Posl.Proofs.Decomposition
import Posl.Proofs.NamedOperands
import Posl.Proofs.ClassEntries
import Posl.Proofs.Evaluation
import Posl.Proofs.ExitStatus
import Posl.Proofs.Trimming
import Posl.Proofs.TextBuiltins
import Posl.Proofs.JsonText
import Posl.Proofs.OneLine
import Posl.Proofs.Replies
import Posl.Proofs.Summaries
import Posl.Proofs.Groundness
import Posl.Proofs.Quoting
