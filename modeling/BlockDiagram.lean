import BlockDiagram.Text.Blank
import BlockDiagram.Text.Word
import BlockDiagram.Text.Printable
import BlockDiagram.Text.Split
import BlockDiagram.Binary64
import BlockDiagram.Binary64.Decimal
import BlockDiagram.Table
import BlockDiagram.Value
import BlockDiagram.Value.Quoted
import BlockDiagram.Value.Arithmetic
import BlockDiagram.Json.Reader
import BlockDiagram.Json.Writer
import BlockDiagram.Kind
import BlockDiagram.Diagram
import BlockDiagram.Reference
import BlockDiagram.Issue
import BlockDiagram.Error
import BlockDiagram.Error.Message
import BlockDiagram.Configuration
import BlockDiagram.Snapshot
import BlockDiagram.Payload
import BlockDiagram.Snapshot.Reader
import BlockDiagram.Text.Order
import BlockDiagram.Digraph
import BlockDiagram.Digraph.Feedback
import BlockDiagram.Layering
import BlockDiagram.Layering.Crossing
import BlockDiagram.Arrangement.Lemmas
import BlockDiagram.Drawing
import BlockDiagram.Block.Literal
import BlockDiagram.Block.Attribute
import BlockDiagram.Block
import BlockDiagram.Block.Files
import BlockDiagram.CodeCheck
import BlockDiagram.Validity
import BlockDiagram.Edit
import BlockDiagram.Json.Embedded
import BlockDiagram.Polish
import BlockDiagram.Assistant
import BlockDiagram.Settings
import BlockDiagram.Store
import BlockDiagram.Service
import BlockDiagram.Path
import BlockDiagram.Export
import BlockDiagram.Api.Schema
import BlockDiagram.Api.Route
import BlockDiagram.Api.Server
import BlockDiagram.Proofs.Diagram.EdgeId
import BlockDiagram.Proofs.Diagram.WellFormed
import BlockDiagram.Proofs.Configuration.WellFormed
import BlockDiagram.Proofs.Store
import BlockDiagram.Proofs.Store.History
import BlockDiagram.Proofs.Service.Step
import BlockDiagram.Proofs.Diagram.Validity
import BlockDiagram.Proofs.Service.WellFormed
import BlockDiagram.Proofs.Service.Replay
import BlockDiagram.Proofs.Digraph.Alike
import BlockDiagram.Proofs.Drawing.Independence
import BlockDiagram.Proofs.Digraph.Path
import BlockDiagram.Proofs.Digraph.Feedback
import BlockDiagram.Proofs.Digraph.Tally
import BlockDiagram.Proofs.Digraph.Backward
import BlockDiagram.Proofs.Layering.Ordering
import BlockDiagram.Proofs.Binary64.Exact
import BlockDiagram.Proofs.Value.Halves
import BlockDiagram.Proofs.Drawing.Extents
import BlockDiagram.Proofs.Drawing.Ranks
import BlockDiagram.Proofs.Drawing.Spots
import BlockDiagram.Proofs.Drawing.Proper
import BlockDiagram.Proofs.Block.Clean
import BlockDiagram.Proofs.Block.Leads
import BlockDiagram.Proofs.Block.Attribute
import BlockDiagram.Proofs.Block.Shape
import BlockDiagram.Proofs.Block.Outline
import BlockDiagram.Proofs.Block.Files
import BlockDiagram.Proofs.Configuration.Nodes
import BlockDiagram.Proofs.Reference.Scan
import BlockDiagram.Proofs.Configuration.Edges
import BlockDiagram.Proofs.Reference.Resolution
import BlockDiagram.Proofs.Reference.Dependency
import BlockDiagram.Proofs.Diagram.Complete
import BlockDiagram.Proofs.Service.Kept
import BlockDiagram.Proofs.Drawing.Centres
import BlockDiagram.Proofs.Block.Written
import BlockDiagram.Proofs.Diagram.Footprint
import BlockDiagram.Proofs.Service.Footprint
import BlockDiagram.Proofs.Service.Redrawn
import BlockDiagram.Proofs.Snapshot.Reader
import BlockDiagram.Proofs.Snapshot.Reload
import BlockDiagram.Proofs.Service.Reload
import BlockDiagram.Proofs.Diagram.Relabelled
import BlockDiagram.Proofs.Service.Polished
import BlockDiagram.Proofs.Diagram.Answered
import BlockDiagram.Proofs.Snapshot.Answered
import BlockDiagram.Proofs.Service.Answered
import BlockDiagram.Proofs.Service.Undone
import BlockDiagram.Proofs.Diagram.Addressed
import BlockDiagram.Proofs.Service.Addressed
import BlockDiagram.Proofs.Block.Decoded
import BlockDiagram.Proofs.Block.TextLiteral
import BlockDiagram.Proofs.Block.Answered
import BlockDiagram.Proofs.Block.Leaves
import BlockDiagram.Proofs.Block.Keeps
import BlockDiagram.Proofs.Block.Cleared
import BlockDiagram.Proofs.Block.Conserved
import BlockDiagram.Proofs.Layering.Crossing
import BlockDiagram.Proofs.Diagram.Issues
import BlockDiagram.Proofs.Service.Locks
import BlockDiagram.Proofs.Path
import BlockDiagram.Proofs.Export.Written
import BlockDiagram.Proofs.Api.Export
import BlockDiagram.Proofs.Json.Reader
import BlockDiagram.Proofs.Json.Embedded
import BlockDiagram.Proofs.Drawing.Directions
import BlockDiagram.Proofs.CodeCheck.Language
import BlockDiagram.Proofs.Layering.Placeholders
