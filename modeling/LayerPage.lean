import LayerPage.Main
import LayerPage.Proofs.Except
import LayerPage.Proofs.SortedMap
import LayerPage.Proofs.Style
import LayerPage.Proofs.Forest
import LayerPage.Proofs.Element.Arena
import LayerPage.Proofs.Build.Unfolding
import LayerPage.Proofs.Build.Outline
import LayerPage.Proofs.Build.Growth
import LayerPage.Proofs.Element.WellFormed
import LayerPage.Proofs.Build.Invariant
import LayerPage.Proofs.Build.Reference
import LayerPage.Proofs.Build.Offence
import LayerPage.Proofs.Element.Restyled
import LayerPage.Proofs.Flow
import LayerPage.Proofs.Length
import LayerPage.Proofs.Layout.Trace
import LayerPage.Proofs.Layout.Run
import LayerPage.Proofs.Build.Pins
import LayerPage.Proofs.Layout.Geometry
import LayerPage.Proofs.Layout.Outcome
import LayerPage.Proofs.Heuristic
import LayerPage.Proofs.Convert
import LayerPage.Proofs.Passes
import LayerPage.Proofs.Conversion
import LayerPage.Proofs.Layout.Position
import LayerPage.Proofs.Element.Map
import LayerPage.Proofs.Build.Map
import LayerPage.Proofs.Layout.Moved
import LayerPage.Proofs.Translation
import LayerPage.Proofs.Element.Effaced
import LayerPage.Proofs.Build.Place
import LayerPage.Proofs.Renaming
import LayerPage.Proofs.Build.Twin
import LayerPage.Proofs.Diagnostics
import LayerPage.Proofs.Blank
import LayerPage.Proofs.Configuration
import LayerPage.Proofs.LayerName
import LayerPage.Proofs.Selector
import LayerPage.Proofs.Layout.Order
import LayerPage.Proofs.Element.Decorated
import LayerPage.Proofs.Markup.Escape
import LayerPage.Proofs.Markup.Visible
import LayerPage.Proofs.Markup.Pruned
import LayerPage.Proofs.Markup.Reader
import LayerPage.Proofs.Markup.Lossless
import LayerPage.Proofs.Markup.Grammar
import LayerPage.Proofs.Occurrence
import LayerPage.Proofs.Inferred
import LayerPage.Proofs.StyleBlock
import LayerPage.Proofs.Raster
import LayerPage.Proofs.Manifest
import LayerPage.Proofs.Stylesheet
import LayerPage.Proofs.NameLoss
import LayerPage.Proofs.PropertyName
import LayerPage.Proofs.Overflow
import LayerPage.Proofs.FilePath
import LayerPage.Proofs.Element.Links
import LayerPage.Proofs.Element.Merge
import LayerPage.Proofs.Validation
import LayerPage.Proofs.FileSystem
import LayerPage.Proofs.ManifestFault
import LayerPage.Proofs.Publication
import LayerPage.Proofs.Element.Absorption
import LayerPage.Proofs.NameCursor
import LayerPage.Proofs.BrokenName
import LayerPage.Proofs.Colour
import LayerPage.Proofs.Layout.Checked
import LayerPage.Proofs.Layout.Extent
import LayerPage.Proofs.Build.Layers
import LayerPage.Proofs.Measure
import LayerPage.Proofs.FlowWalk
import LayerPage.Proofs.Isolation
import LayerPage.Proofs.Failure
import LayerPage.Proofs.Unwritten
import LayerPage.Proofs.StyleHistory
import LayerPage.Proofs.Layout.Idempotent
import LayerPage.Proofs.Settings
import LayerPage.Proofs.Markup.Route
import LayerPage.Proofs.Markup.Decodable
import LayerPage.Proofs.Pixels
