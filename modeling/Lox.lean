import Lox.Main
import Lox.Proofs.Grammar.Exact
import Lox.Proofs.Scanning.Calls
import Lox.Proofs.Session.Bindings
import Lox.Proofs.Session.Concatenation
import Lox.Proofs.Session.Control
import Lox.Proofs.Session.Rejection
import Lox.Proofs.Session.Renaming
import Lox.Proofs.Scanning.Joined
import Lox.Proofs.Evaluation.Realms
import Lox.Proofs.Evaluation.Footprint
import Lox.Proofs.Session.Identities
import Lox.Proofs.Session.Returns
import Lox.Proofs.Session.Printing
import Lox.Proofs.Grammar.Recovery
import Lox.Proofs.Grammar.Bounds
import Lox.Proofs.Grammar.Earliest
import Lox.Proofs.Scoping.Distances
import Lox.Proofs.Session.Depth
import Lox.Proofs.Session.Loops
import Lox.Proofs.Evaluation.Rooted
import Lox.Proofs.Session.Scopes
import Lox.Proofs.Session.Anchors
import Lox.Proofs.Decimal.Nearest
import Lox.Proofs.Decimal.Shortest
import Lox.Proofs.Decimal.Numerals
import Lox.Proofs.Scanning.Lexemes
import Lox.Proofs.Text.Forms
import Lox.Proofs.Text.Legible
import Lox.Proofs.Text.Readable
import Lox.Proofs.Scanning.Characters
import Lox.Proofs.Session.Diagnostics
import Lox.Proofs.Evaluation.Unwinding
import Lox.Proofs.Session.Sinks
import Lox.Proofs.Scoping.Discipline
import Lox.Proofs.Decimal.Order
import Lox.Proofs.Scanning.Numerals
import Lox.Proofs.Session.Functions
