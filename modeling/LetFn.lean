import LetFn.Disk.Volume
import LetFn.Main
import LetFn.Proofs.Node.RoundTrip
import LetFn.Proofs.Snippet
import LetFn.Proofs.Token.Line
import LetFn.Proofs.Token.Stream
import LetFn.Proofs.Session
import LetFn.Proofs.Node.Places
import LetFn.Proofs.Parse.Append
import LetFn.Proofs.Parse.Text
import LetFn.Proofs.Repl.Probe
import LetFn.Proofs.Report.Target
import LetFn.Proofs.Command.Verdict
import LetFn.Proofs.Command.Canonical
import LetFn.Proofs.Session.Stop
import LetFn.Proofs.Node.Walk
import LetFn.Proofs.Parser.Origin
import LetFn.Proofs.Node.Locations
import LetFn.Proofs.Node.Conservation
import LetFn.Proofs.Parse.Layout
import LetFn.Proofs.Parse.Spacing
import LetFn.Proofs.Parser.Layered
import LetFn.Proofs.Snippet.Exact
import LetFn.Proofs.Node.Comparison
import LetFn.Proofs.Grammar.Signs
import LetFn.Proofs.Node.Names
import LetFn.Proofs.Node.Parens
import LetFn.Proofs.Parse.Pasting
import LetFn.Proofs.Node.Misnamed
import LetFn.Proofs.Report.Alignment
import LetFn.Proofs.Report.Cause
import LetFn.Proofs.Node.Outline
import LetFn.Proofs.Node.Json
import LetFn.Proofs.Node.Address
import LetFn.Proofs.Repl.Shortest
import LetFn.Proofs.Settings
import LetFn.Proofs.Source.Rows
import LetFn.Proofs.Command.Precedence
import LetFn.Proofs.Settings.Found
import LetFn.Proofs.Failure
