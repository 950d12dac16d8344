import Scriptlet.Main
import Scriptlet.Proofs.Comments.Inserted
import Scriptlet.Proofs.Comments.Run
import Scriptlet.Proofs.Consistency.Source
import Scriptlet.Proofs.Environment.Closure
import Scriptlet.Proofs.Environment.Listing
import Scriptlet.Proofs.Environment.Run
import Scriptlet.Proofs.Grammar.Position
import Scriptlet.Proofs.Grammar.Program
import Scriptlet.Proofs.Layout.Relaid
import Scriptlet.Proofs.Literal.Escaped
import Scriptlet.Proofs.Mentions.Blamed
import Scriptlet.Proofs.Mentions.Unmentioned
import Scriptlet.Proofs.Output.Limit
import Scriptlet.Proofs.Places.Shown
import Scriptlet.Proofs.Printing.Printer
import Scriptlet.Proofs.Progress.Program
import Scriptlet.Proofs.Rewriting.Curtailed
import Scriptlet.Proofs.Rewriting.Unchained
import Scriptlet.Proofs.Scoping.Confined
import Scriptlet.Proofs.Scoping.Distinct
import Scriptlet.Proofs.Scoping.Empty
import Scriptlet.Proofs.Session.Joined
import Scriptlet.Proofs.Tiling.Lexed
import Scriptlet.Proofs.Viable.Program
import Scriptlet.Report.Reader
import Scriptlet.Proofs.Number.Nearest
import Scriptlet.Proofs.Number.Decimal
import Scriptlet.Proofs.Number.Double
import Scriptlet.Proofs.Number.Numeral
import Scriptlet.Proofs.Number.Coercion
import Scriptlet.Proofs.Number.Written
import Scriptlet.Proofs.Number.Display
import Scriptlet.Proofs.Number.Whole
import Scriptlet.Proofs.Literal.Integer
import Scriptlet.Proofs.Json.Lexical
import Scriptlet.Proofs.Json.RoundTrip
import Scriptlet.Proofs.Report.RoundTrip
