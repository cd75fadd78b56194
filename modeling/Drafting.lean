import Drafting.Binary.Exact
import Drafting.Binary.Format
import Drafting.Config.Basic
import Drafting.Config.Schema
import Drafting.Config.Validate
import Drafting.Decimal
import Drafting.Decimal.Read
import Drafting.Decimal.Shortest
import Drafting.Declared
import Drafting.Diagnostic
import Drafting.Diagram
import Drafting.Document
import Drafting.Document.Json
import Drafting.Document.Reader
import Drafting.Draw.Command
import Drafting.Draw.Drawing
import Drafting.Draw.Graph
import Drafting.Draw.Layer
import Drafting.Draw.Sequence
import Drafting.Draw.Stroke
import Drafting.Drawing
import Drafting.Export.Command
import Drafting.Export.Drawing
import Drafting.Export.Geometry
import Drafting.Export.Graph
import Drafting.Export.Sequence
import Drafting.Failure
import Drafting.Geometry.Basic
import Drafting.Geometry.Bounds
import Drafting.Geometry.Orient
import Drafting.Graph.Component
import Drafting.Graph.Containment
import Drafting.Graph.Digraph
import Drafting.Graph.Framing
import Drafting.Graph.Geometry
import Drafting.Graph.Layering
import Drafting.Graph.Layout
import Drafting.Graph.Marks
import Drafting.Graph.Model
import Drafting.Graph.Ordering
import Drafting.Graph.Placement
import Drafting.Graph.Ranking
import Drafting.Graph.ScopeLayout
import Drafting.Ident
import Drafting.Layout.Row
import Drafting.Layout.Sheet
import Drafting.Proofs.Arrays
import Drafting.Proofs.Binary.Rounding
import Drafting.Proofs.Binary.Single
import Drafting.Proofs.Binary.Unpacked
import Drafting.Proofs.Binary.Zeros
import Drafting.Proofs.Config
import Drafting.Proofs.Declared
import Drafting.Proofs.Diagnostics
import Drafting.Proofs.Digraph.CycleBreaking
import Drafting.Proofs.Digraph.LongestPaths
import Drafting.Proofs.Digraph.Paths
import Drafting.Proofs.Digraph.Search
import Drafting.Proofs.Draw.Layers
import Drafting.Proofs.Draw.Stream
import Drafting.Proofs.Geometry.Boxes
import Drafting.Proofs.Graph.Appended
import Drafting.Proofs.Graph.Chains
import Drafting.Proofs.Graph.Clearance
import Drafting.Proofs.Graph.ComponentBoxes
import Drafting.Proofs.Graph.ComponentWays
import Drafting.Proofs.Graph.Components
import Drafting.Proofs.Graph.Coordinates
import Drafting.Proofs.Graph.Cycles
import Drafting.Proofs.Graph.DepthFirst
import Drafting.Proofs.Graph.Elements
import Drafting.Proofs.Graph.Enclosure
import Drafting.Proofs.Graph.Exchanges
import Drafting.Proofs.Graph.Interiors
import Drafting.Proofs.Graph.Laminar
import Drafting.Proofs.Graph.Layering
import Drafting.Proofs.Graph.Lifting
import Drafting.Proofs.Graph.Minimization
import Drafting.Proofs.Graph.Mirror
import Drafting.Proofs.Graph.Names
import Drafting.Proofs.Graph.NestedBoxes
import Drafting.Proofs.Graph.Nesting
import Drafting.Proofs.Graph.Ordering
import Drafting.Proofs.Graph.Outcome
import Drafting.Proofs.Graph.PartOrder
import Drafting.Proofs.Graph.Placement
import Drafting.Proofs.Graph.Places
import Drafting.Proofs.Graph.Positions
import Drafting.Proofs.Graph.ProperLayering
import Drafting.Proofs.Graph.Ranks
import Drafting.Proofs.Graph.Reports
import Drafting.Proofs.Graph.Rooms
import Drafting.Proofs.Graph.Routes
import Drafting.Proofs.Graph.RoutingCount
import Drafting.Proofs.Graph.ScopeBoxes
import Drafting.Proofs.Graph.ScopeLayouts
import Drafting.Proofs.Graph.Scopes
import Drafting.Proofs.Graph.Shifting
import Drafting.Proofs.Graph.Spacing
import Drafting.Proofs.Graph.Turned
import Drafting.Proofs.Graph.Twins
import Drafting.Proofs.Graph.Walks
import Drafting.Proofs.Graph.Ways
import Drafting.Proofs.Scalar.Lengths
import Drafting.Proofs.Scalar.Line
import Drafting.Proofs.Sequence.Activations
import Drafting.Proofs.Sequence.Bands
import Drafting.Proofs.Sequence.Bars
import Drafting.Proofs.Sequence.BlockForest
import Drafting.Proofs.Sequence.Blocks
import Drafting.Proofs.Sequence.Brackets
import Drafting.Proofs.Sequence.ColumnOrder
import Drafting.Proofs.Sequence.Columns
import Drafting.Proofs.Sequence.Coverage
import Drafting.Proofs.Sequence.Distribution
import Drafting.Proofs.Sequence.Extents
import Drafting.Proofs.Sequence.Faults
import Drafting.Proofs.Sequence.Forest
import Drafting.Proofs.Sequence.Frames
import Drafting.Proofs.Sequence.Lifelines
import Drafting.Proofs.Sequence.Lifetimes
import Drafting.Proofs.Sequence.Matching
import Drafting.Proofs.Sequence.NestedFrames
import Drafting.Proofs.Sequence.Outcome
import Drafting.Proofs.Sequence.Pairing
import Drafting.Proofs.Sequence.Periods
import Drafting.Proofs.Sequence.Progress
import Drafting.Proofs.Sequence.Reports
import Drafting.Proofs.Sequence.Reservation
import Drafting.Proofs.Sequence.RowOrder
import Drafting.Proofs.Sequence.RowRooms
import Drafting.Proofs.Sequence.Rows
import Drafting.Proofs.Sequence.Slots
import Drafting.Proofs.Sorting
import Drafting.Proofs.Text.Words
import Drafting.Proofs.Text.Wrapping
import Drafting.Scalar
import Drafting.Scalar.Binary32
import Drafting.Scalar.Exact
import Drafting.Sequence.Assemble
import Drafting.Sequence.Columns
import Drafting.Sequence.Geometry
import Drafting.Sequence.Layout
import Drafting.Sequence.Model
import Drafting.Sequence.Roster
import Drafting.Sequence.Timeline
import Drafting.Text.Blank
import Drafting.Text.Box
import Drafting.Text.Measure
import Drafting.Text.Style
import Drafting.Text.Wrap
import Drafting.Toml.Parse
import Drafting.Toml.Scalar
import Drafting.Toml.Text
import Drafting.Toml.Tree
