import Tabula.Cli.Arguments
import Tabula.Cli.Program
import Tabula.Cli.Snapshot
import Tabula.Cli.Usage
import Tabula.Cli.World
import Tabula.Digest.Sha1
import Tabula.Edge.Decoder
import Tabula.Edge.Discovered
import Tabula.Edge.Encoding
import Tabula.Edge.Enumerated
import Tabula.Edge.Steps
import Tabula.Edge.Tally
import Tabula.Edge.Value
import Tabula.Error
import Tabula.Expr.Basic
import Tabula.Expr.Filter
import Tabula.Expr.Fold
import Tabula.Expr.Reader
import Tabula.Expr.Script
import Tabula.Expr.Writer
import Tabula.Grouping.Condition
import Tabula.Grouping.Order
import Tabula.Grouping.Plan
import Tabula.Grouping.Rows
import Tabula.Hits.Format
import Tabula.Hits.Plan
import Tabula.Json.Canonical
import Tabula.Json.Parser
import Tabula.Json.Printer
import Tabula.Json.Update
import Tabula.Json.Value
import Tabula.Main
import Tabula.Metrics.Plan
import Tabula.Metrics.Pull
import Tabula.Metrics.Template
import Tabula.Number.Basic
import Tabula.Number.Double
import Tabula.Number.Reader
import Tabula.Number.Shortest
import Tabula.Number.Text
import Tabula.Options
import Tabula.Path
import Tabula.Query.Basic
import Tabula.Query.Reader
import Tabula.Response.Node
import Tabula.Response.Walk
import Tabula.Result.Combine
import Tabula.Result.Formatted
import Tabula.Result.Grouped
import Tabula.Result.Matrix
import Tabula.Run.Backend
import Tabula.Run.Compiled
import Tabula.Run.Executor
import Tabula.Run.Saved
import Tabula.Schema.Catalog
import Tabula.Schema.Column
import Tabula.Schema.Inference
import Tabula.Schema.Reader
import Tabula.Search.Aggregation
import Tabula.Search.Filter
import Tabula.Search.Script
import Tabula.Settings.Basic
import Tabula.Settings.Environment
import Tabula.Settings.Reader
import Tabula.Settings.Template
import Tabula.Text.Base64
import Tabula.Text.CharClass
import Tabula.Text.Order
import Tabula.Text.Quoted
import Tabula.Toml.Document
import Tabula.Toml.Parser
import Tabula.Toml.Scalar
import Tabula.Toml.Text
import Tabula.Proofs.Edge.Asks
import Tabula.Proofs.Edge.Cuts
import Tabula.Proofs.Edge.Exact
import Tabula.Proofs.Edge.Freezing
import Tabula.Proofs.Edge.Frequency
import Tabula.Proofs.Edge.Joins
import Tabula.Proofs.Edge.Keys
import Tabula.Proofs.Edge.Missing
import Tabula.Proofs.Edge.Places
import Tabula.Proofs.Edge.Preorder
import Tabula.Proofs.Edge.Shuffling
import Tabula.Proofs.Edge.Slots
import Tabula.Proofs.Edge.Spans
import Tabula.Proofs.Edge.Tally
import Tabula.Proofs.Edge.Value
import Tabula.Proofs.Expr.Binding
import Tabula.Proofs.Expr.Comparisons
import Tabula.Proofs.Expr.Complements
import Tabula.Proofs.Expr.Conditions
import Tabula.Proofs.Expr.Filters
import Tabula.Proofs.Expr.Folding
import Tabula.Proofs.Expr.Induction
import Tabula.Proofs.Expr.Membership
import Tabula.Proofs.Expr.Reading
import Tabula.Proofs.Expr.Redexes
import Tabula.Proofs.Expr.Scripts
import Tabula.Proofs.Grouping.Frequency
import Tabula.Proofs.Grouping.Landing
import Tabula.Proofs.Grouping.Layers
import Tabula.Proofs.Grouping.Levels
import Tabula.Proofs.Grouping.Limits
import Tabula.Proofs.Grouping.Pieces
import Tabula.Proofs.Grouping.Placing
import Tabula.Proofs.Grouping.Policy
import Tabula.Proofs.Grouping.Recounting
import Tabula.Proofs.Grouping.Reordering
import Tabula.Proofs.Grouping.Rows
import Tabula.Proofs.Grouping.Scopes
import Tabula.Proofs.Grouping.Sorting
import Tabula.Proofs.Grouping.Splitting
import Tabula.Proofs.Grouping.Starts
import Tabula.Proofs.Grouping.Ways
import Tabula.Proofs.Hits.Cubes
import Tabula.Proofs.Hits.Fetching
import Tabula.Proofs.Hits.Leaves
import Tabula.Proofs.Hits.Offsets
import Tabula.Proofs.Hits.References
import Tabula.Proofs.Hits.Rows
import Tabula.Proofs.Hits.Selects
import Tabula.Proofs.Json.Canonical
import Tabula.Proofs.Json.Fields
import Tabula.Proofs.Json.Paths
import Tabula.Proofs.Json.Printing
import Tabula.Proofs.Json.Reading
import Tabula.Proofs.Json.Same
import Tabula.Proofs.Json.Writing
import Tabula.Proofs.Lists
import Tabula.Proofs.Metrics.Additions
import Tabula.Proofs.Metrics.Selects
import Tabula.Proofs.Metrics.Sharing
import Tabula.Proofs.Number.Characters
import Tabula.Proofs.Number.Places
import Tabula.Proofs.Number.Range
import Tabula.Proofs.Number.Rounding
import Tabula.Proofs.Number.Shortest
import Tabula.Proofs.Number.Texts
import Tabula.Proofs.Path.Algebra
import Tabula.Proofs.Path.Names
import Tabula.Proofs.Path.Nesting
import Tabula.Proofs.Path.Order
import Tabula.Proofs.Path.Relative
import Tabula.Proofs.Response.Choices
import Tabula.Proofs.Response.Markers
import Tabula.Proofs.Response.Mirror
import Tabula.Proofs.Response.Offers
import Tabula.Proofs.Result.Addresses
import Tabula.Proofs.Result.Agreement
import Tabula.Proofs.Result.Combining
import Tabula.Proofs.Result.Extremes
import Tabula.Proofs.Result.Folding
import Tabula.Proofs.Result.Formats
import Tabula.Proofs.Result.Grouped
import Tabula.Proofs.Result.Groups
import Tabula.Proofs.Result.Matrices
import Tabula.Proofs.Result.Merging
import Tabula.Proofs.Result.Nesting
import Tabula.Proofs.Result.Ordering
import Tabula.Proofs.Result.Shapes
import Tabula.Proofs.Result.Tables
import Tabula.Proofs.Result.Unions
import Tabula.Proofs.Results
import Tabula.Proofs.Run.Decoding
import Tabula.Proofs.Run.Identities
import Tabula.Proofs.Run.Limits
import Tabula.Proofs.Run.Sequences
import Tabula.Proofs.Schema.Contents
import Tabula.Proofs.Schema.Documents
import Tabula.Proofs.Schema.Inference
import Tabula.Proofs.Schema.Resolution
import Tabula.Proofs.Search.Asking
import Tabula.Proofs.Search.Meaning
import Tabula.Proofs.Search.Reading
import Tabula.Proofs.Search.Scopes
import Tabula.Proofs.Settings.Templates
import Tabula.Proofs.Text.Sets
