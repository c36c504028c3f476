import Yuml.Document.Dot
import Yuml.Main
import Yuml.Proofs.Layered.Layout
import Yuml.Proofs.Render.Statements
import Yuml.Proofs.Source.Streaming
import Yuml.Proofs.Layered.Symmetry
import Yuml.Proofs.Layered.Waypoints
import Yuml.Proofs.Layered.Borders
import Yuml.Proofs.Options.Precedence
import Yuml.Proofs.Xml.Event
import Yuml.Proofs.Notation.Token
import Yuml.Proofs.Notation.Splitting
import Yuml.Proofs.Sequence.Script
import Yuml.Proofs.Sequence.Chart
import Yuml.Proofs.Icon.Bundled
import Yuml.Proofs.Render.Failures
import Yuml.Proofs.Render.Settling
import Yuml.Proofs.Xml.Content
import Yuml.Proofs.Xml.Writer
import Yuml.Proofs.Xml.Reader
import Yuml.Proofs.Xml.Namespace
import Yuml.Proofs.Drawing.Canvas
import Yuml.Proofs.Icon.Inlining
import Yuml.Proofs.Notation.Grammar
import Yuml.Proofs.Drawing.Picture
import Yuml.Proofs.Drawing.Groups
import Yuml.Proofs.Sequence.Picture
import Yuml.Proofs.Render.Elements
import Yuml.Proofs.Render.Total
import Yuml.Proofs.Render.Icons
import Yuml.Proofs.Render.Shading
import Yuml.Proofs.Notation.Gathering
import Yuml.Proofs.Document.Dot
import Yuml.Proofs.Notation.Legible
import Yuml.Proofs.Graph.Reversals
import Yuml.Proofs.Drawing.Origin
import Yuml.Proofs.Render.Origin
import Yuml.Proofs.Graph.Loops
import Yuml.Proofs.Layered.Proper
import Yuml.Proofs.Layered.Sketch
import Yuml.Proofs.Layered.Stretching
import Yuml.Proofs.Layered.Overlaps
import Yuml.Proofs.Notation.Printing
import Yuml.Proofs.Notation.Reading
import Yuml.Proofs.Notation.Denotation
import Yuml.Proofs.Notation.Keys
import Yuml.Proofs.Notation.Growth
import Yuml.Proofs.Notation.Records
import Yuml.Proofs.Notation.Lines
import Yuml.Proofs.Render.Blanks
import Yuml.Proofs.Source.Directive
import Yuml.Proofs.Source.Interruption
import Yuml.Proofs.Sequence.Consistency
import Yuml.Proofs.Icon.Tails
import Yuml.Proofs.Number.Hundredths
import Yuml.Proofs.Drawing.Compartments
import Yuml.Proofs.Drawing.Records
