import StrictSchema.Command.Arguments
import StrictSchema.Command.Check
import StrictSchema.Command.Error
import StrictSchema.Command.Run
import StrictSchema.Compilation.Compile
import StrictSchema.Compilation.Pruning
import StrictSchema.Failure
import StrictSchema.Files.Path
import StrictSchema.Files.Tree
import StrictSchema.Files.Walk
import StrictSchema.Generation.Preparation
import StrictSchema.Generation.Request
import StrictSchema.Json.Basic
import StrictSchema.Json.Decode
import StrictSchema.Json.Document
import StrictSchema.Json.Printer
import StrictSchema.Json.Reader
import StrictSchema.Json.Record
import StrictSchema.Main
import StrictSchema.Members
import StrictSchema.Module.Codec
import StrictSchema.Module.Reference
import StrictSchema.Module.Version
import StrictSchema.Number.Binary64
import StrictSchema.Number.Decimal
import StrictSchema.Number.Real
import StrictSchema.Number.Word
import StrictSchema.Proofs.Acceptance.Completeness
import StrictSchema.Proofs.Acceptance.NullMembers
import StrictSchema.Proofs.Acceptance.Reading
import StrictSchema.Proofs.Acceptance.Simulation
import StrictSchema.Proofs.Acceptance.Soundness
import StrictSchema.Proofs.Command.Check
import StrictSchema.Proofs.Command.FailFast
import StrictSchema.Proofs.Compilation.Abbreviations
import StrictSchema.Proofs.Compilation.Artefact
import StrictSchema.Proofs.Compilation.Deletion
import StrictSchema.Proofs.Compilation.Depth
import StrictSchema.Proofs.Compilation.Diagnostics
import StrictSchema.Proofs.Compilation.Dialect
import StrictSchema.Proofs.Compilation.FixedPoints
import StrictSchema.Proofs.Compilation.Forms
import StrictSchema.Proofs.Compilation.MemberOrder
import StrictSchema.Proofs.Compilation.MergedTypes
import StrictSchema.Proofs.Compilation.Modularity
import StrictSchema.Proofs.Compilation.Nullability
import StrictSchema.Proofs.Compilation.PathTexts
import StrictSchema.Proofs.Compilation.Paths
import StrictSchema.Proofs.Compilation.Positions
import StrictSchema.Proofs.Compilation.Sources
import StrictSchema.Proofs.Compilation.Supportable
import StrictSchema.Proofs.Compilation.TwoPasses
import StrictSchema.Proofs.Compilation.Types
import StrictSchema.Proofs.Compilation.UnseenChanges
import StrictSchema.Proofs.Compilation.Visits
import StrictSchema.Proofs.Files.Writing
import StrictSchema.Proofs.Generation.Requests
import StrictSchema.Proofs.Json.Agreement
import StrictSchema.Proofs.Json.Depth
import StrictSchema.Proofs.Json.DistinctNames
import StrictSchema.Proofs.Json.NumberText
import StrictSchema.Proofs.Json.ReadBack
import StrictSchema.Proofs.Json.StringText
import StrictSchema.Proofs.Members
import StrictSchema.Proofs.Module.Grammar
import StrictSchema.Proofs.Module.Matching
import StrictSchema.Proofs.Module.References
import StrictSchema.Proofs.Module.SemanticVersions
import StrictSchema.Proofs.Module.Versions
import StrictSchema.Proofs.Number.Digits
import StrictSchema.Proofs.Number.Rounding
import StrictSchema.Proofs.Number.Shortest
import StrictSchema.Proofs.Results
import StrictSchema.Proofs.Schema.Abbreviations
import StrictSchema.Proofs.Schema.Contexts
import StrictSchema.Proofs.Schema.DistinctNames
import StrictSchema.Proofs.Schema.Documents
import StrictSchema.Proofs.Schema.Equality
import StrictSchema.Proofs.Schema.Fields
import StrictSchema.Proofs.Schema.Grammar
import StrictSchema.Proofs.Schema.Keywords
import StrictSchema.Proofs.Schema.MemberOrder
import StrictSchema.Proofs.Schema.Nodes
import StrictSchema.Proofs.Schema.NormalForm
import StrictSchema.Proofs.Schema.Parts
import StrictSchema.Proofs.Schema.Rewriting
import StrictSchema.Proofs.Schema.RoundTrip
import StrictSchema.Proofs.Schema.TypeForms
import StrictSchema.Proofs.Schema.TypeKeyword
import StrictSchema.Proofs.Settings.Document
import StrictSchema.Proofs.Settings.Groups
import StrictSchema.Proofs.Settings.Keys
import StrictSchema.Proofs.Settings.Layers
import StrictSchema.Proofs.Settings.Loading
import StrictSchema.Proofs.Settings.Meaning
import StrictSchema.Proofs.Settings.Saving
import StrictSchema.Proofs.Settings.Sources
import StrictSchema.Proofs.Settings.Spellings
import StrictSchema.Proofs.Settings.Variables
import StrictSchema.Proofs.Text.LowerCase
import StrictSchema.Proofs.Text.Split
import StrictSchema.Proofs.Toml.Moments
import StrictSchema.Proofs.Toml.Statements
import StrictSchema.Proofs.Toml.Texts
import StrictSchema.Schema.Basic
import StrictSchema.Schema.Decode
import StrictSchema.Schema.Encode
import StrictSchema.Schema.Equality
import StrictSchema.Schema.Keyword
import StrictSchema.Settings.Basic
import StrictSchema.Settings.Convert
import StrictSchema.Settings.Environment
import StrictSchema.Settings.Error
import StrictSchema.Settings.Load
import StrictSchema.Settings.Save
import StrictSchema.Settings.Selection
import StrictSchema.Settings.Tree
import StrictSchema.Text.Concat
import StrictSchema.Text.LowerCase
import StrictSchema.Text.Printable
import StrictSchema.Text.Quoted
import StrictSchema.Text.Split
import StrictSchema.Toml.Moment
import StrictSchema.Toml.Printer
import StrictSchema.Toml.Reader
import StrictSchema.Toml.Scalar
import StrictSchema.Toml.Table
import StrictSchema.Toml.Value
