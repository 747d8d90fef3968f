import StyleDelta.Text.Token
import StyleDelta.Text.Canonical
import StyleDelta.Text.Blank
import StyleDelta.Text.Lines
import StyleDelta.Number.Binary64
import StyleDelta.Number.Shortest
import StyleDelta.Json.Basic
import StyleDelta.Json.Writer
import StyleDelta.Json.Malformed
import StyleDelta.Json.Literal
import StyleDelta.Json.Reader
import StyleDelta.Sheet.Basic
import StyleDelta.Sheet.OfJson
import StyleDelta.Sheet.Canonical
import StyleDelta.Sheet.Identity
import StyleDelta.Sheet.Css
import StyleDelta.Matching
import StyleDelta.Sheet.Siblings
import StyleDelta.Difference
import StyleDelta.Report
import StyleDelta.Input
import StyleDelta.Text.Visible
import StyleDelta.Text.Quoted
import StyleDelta.Log.Event
import StyleDelta.Log.Trace
import StyleDelta.Log.Filter
import StyleDelta.Cli.Arguments
import StyleDelta.Cli.Run
import StyleDelta.Main
import StyleDelta.Proofs.Matching
import StyleDelta.Proofs.Json.Equality
import StyleDelta.Proofs.Sheet.Canonical
import StyleDelta.Proofs.Siblings
import StyleDelta.Proofs.Agreement
import StyleDelta.Proofs.Exchange
import StyleDelta.Proofs.Sheet.Unplaced
import StyleDelta.Proofs.Cosmetic
import StyleDelta.Proofs.Text.Canonical
import StyleDelta.Proofs.Sheet.Stability
import StyleDelta.Proofs.Matching.Leftovers
import StyleDelta.Proofs.Matching.Order
import StyleDelta.Proofs.Matching.Queues
import StyleDelta.Proofs.Matching.Ranks
import StyleDelta.Proofs.Positions
import StyleDelta.Proofs.Partition
import StyleDelta.Proofs.Rearrangement
import StyleDelta.Proofs.Layers
import StyleDelta.Proofs.CommonNodes
import StyleDelta.Proofs.Reapplication
import StyleDelta.Proofs.Sheet.Loading
import StyleDelta.Proofs.Sheet.Grammar
import StyleDelta.Proofs.Sheet.Faults
import StyleDelta.Proofs.Sheet.RoundTrip
import StyleDelta.Proofs.Cli.Verdict
import StyleDelta.Proofs.Sheet.Positionless
import StyleDelta.Proofs.Text.Reading
import StyleDelta.Proofs.Displacement
import StyleDelta.Proofs.Text.Colours
import StyleDelta.Proofs.Afresh
import StyleDelta.Proofs.Number.Rounding
import StyleDelta.Proofs.Number.Literal
import StyleDelta.Proofs.Number.Reading
import StyleDelta.Proofs.Json.Compact
import StyleDelta.Proofs.Json.Zeros
import StyleDelta.Proofs.Identity
import StyleDelta.Proofs.Descriptions
import StyleDelta.Proofs.Sheet.DroppedComments
import StyleDelta.Proofs.Json.Pretty
import StyleDelta.Proofs.ReportJson
import StyleDelta.Proofs.Text.Marks
import StyleDelta.Proofs.Sheet.CssParts
import StyleDelta.Proofs.Sheet.CssReading
import StyleDelta.Proofs.Visibility
import StyleDelta.Proofs.Text.Lines
import StyleDelta.Proofs.Sheet.CssRows
import StyleDelta.Proofs.Sheet.CssDepth
import StyleDelta.Proofs.ReportText
