import HighlightGraph.Attributes.Basic
import HighlightGraph.Attributes.Format
import HighlightGraph.Attributes.Quoted
import HighlightGraph.Attributes.Reader
import HighlightGraph.CommandLine.Arguments
import HighlightGraph.CommandLine.FileTree
import HighlightGraph.CommandLine.Help
import HighlightGraph.CommandLine.Path
import HighlightGraph.CommandLine.Run
import HighlightGraph.Diagram.Basic
import HighlightGraph.Diagram.Connect
import HighlightGraph.Diagram.Register
import HighlightGraph.Document
import HighlightGraph.DocumentFile
import HighlightGraph.Drawing
import HighlightGraph.Highlight
import HighlightGraph.Identifier
import HighlightGraph.Json.Fault
import HighlightGraph.Json.Printer
import HighlightGraph.Json.Quoted
import HighlightGraph.Json.Reader
import HighlightGraph.Main
import HighlightGraph.Misfit
import HighlightGraph.Number.Double
import HighlightGraph.Number.Numeral
import HighlightGraph.Number.Shortest
import HighlightGraph.Options
import HighlightGraph.Proofs.Attributes.Alike
import HighlightGraph.Proofs.Attributes.Blanked
import HighlightGraph.Proofs.Attributes.Concatenation
import HighlightGraph.Proofs.Attributes.Continuation
import HighlightGraph.Proofs.Attributes.Kinds
import HighlightGraph.Proofs.Attributes.LineEnds
import HighlightGraph.Proofs.Attributes.Markup
import HighlightGraph.Proofs.Attributes.Quoted
import HighlightGraph.Proofs.Attributes.Recognized
import HighlightGraph.Proofs.Attributes.RoundTrip
import HighlightGraph.Proofs.Attributes.SelfDelimiting
import HighlightGraph.Proofs.Attributes.SinglePass
import HighlightGraph.Proofs.Attributes.Values
import HighlightGraph.Proofs.CommandLine.Arguments
import HighlightGraph.Proofs.CommandLine.Dump
import HighlightGraph.Proofs.CommandLine.FileTree
import HighlightGraph.Proofs.CommandLine.Formats
import HighlightGraph.Proofs.Diagram.Connect
import HighlightGraph.Proofs.Diagram.Consistency
import HighlightGraph.Proofs.Diagram.Displacement
import HighlightGraph.Proofs.Diagram.LastCall
import HighlightGraph.Proofs.Diagram.Order
import HighlightGraph.Proofs.Diagram.Placeholders
import HighlightGraph.Proofs.Diagram.Refusal
import HighlightGraph.Proofs.Diagram.Restriction
import HighlightGraph.Proofs.Diagram.Run
import HighlightGraph.Proofs.Document.Calls
import HighlightGraph.Proofs.Document.Compilation
import HighlightGraph.Proofs.Document.Entries
import HighlightGraph.Proofs.Document.Faults
import HighlightGraph.Proofs.Document.Load
import HighlightGraph.Proofs.Document.Writable
import HighlightGraph.Proofs.Drawing.Alike
import HighlightGraph.Proofs.Drawing.Highlighting
import HighlightGraph.Proofs.Drawing.NodeAgreement
import HighlightGraph.Proofs.Drawing.Outline
import HighlightGraph.Proofs.Drawing.Statements
import HighlightGraph.Proofs.Drawing.Structure
import HighlightGraph.Proofs.Drawing.Subgraphs
import HighlightGraph.Proofs.Identifier
import HighlightGraph.Proofs.Identifier.Collisions
import HighlightGraph.Proofs.Identifier.FixedPoints
import HighlightGraph.Proofs.Identifier.NormalForm
import HighlightGraph.Proofs.Json.Printed
import HighlightGraph.Proofs.Json.Quoted
import HighlightGraph.Proofs.Json.Scalars
import HighlightGraph.Proofs.Json.Values
import HighlightGraph.Proofs.Number.Shortest
import HighlightGraph.Proofs.Options
import HighlightGraph.Proofs.Options.Canonical
import HighlightGraph.Proofs.Rendering
import HighlightGraph.Proofs.Rendering.CharacterData
import HighlightGraph.Proofs.Rendering.Embedding
import HighlightGraph.Proofs.Result
import HighlightGraph.Proofs.Stylesheet
import HighlightGraph.Proofs.Table
import HighlightGraph.Rendering
import HighlightGraph.Stylesheet
import HighlightGraph.Table
import HighlightGraph.Text.Blank
import HighlightGraph.Text.DecimalDigit
import HighlightGraph.Text.Lowercase
import HighlightGraph.Text.Printable
import HighlightGraph.Value.Basic
import HighlightGraph.Value.Display
import HighlightGraph.Value.Items
import HighlightGraph.Value.Key
