import TagMigration.Cli
import TagMigration.Digest.Sha256
import TagMigration.Error
import TagMigration.Invocation.Basic
import TagMigration.Invocation.Scope
import TagMigration.Invocation.TagName
import TagMigration.Json.Decimal
import TagMigration.Json.Reader
import TagMigration.Json.Value
import TagMigration.Json.Writer
import TagMigration.Main
import TagMigration.Pass.Probe
import TagMigration.Pass.Strip
import TagMigration.Pass.TagForm
import TagMigration.Pass.Visitor
import TagMigration.Pass.Walk
import TagMigration.Project.Config
import TagMigration.Project.FileTree
import TagMigration.Project.Helper
import TagMigration.Project.Path
import TagMigration.Project.Report
import TagMigration.Project.Run
import TagMigration.Project.Workspace
import TagMigration.Reader.Content
import TagMigration.Reader.Curly
import TagMigration.Reader.Cursor
import TagMigration.Reader.Expression
import TagMigration.Reader.Fault
import TagMigration.Reader.StartTag
import TagMigration.Scanner.Basic
import TagMigration.Scanner.Call
import TagMigration.Scanner.Content
import TagMigration.Scanner.StartTag
import TagMigration.Script.Expression
import TagMigration.Script.Module
import TagMigration.Script.Recogniser
import TagMigration.Script.Statement
import TagMigration.Script.Token
import TagMigration.Source.Location
import TagMigration.Source.Span
import TagMigration.Telemetry.Aggregate
import TagMigration.Telemetry.Identity
import TagMigration.Telemetry.NameSets
import TagMigration.Telemetry.Recorder
import TagMigration.Template.Basic
import TagMigration.Template.Json
import TagMigration.Template.Printer
import TagMigration.Text.Blank
import TagMigration.Text.Search
import TagMigration.Proofs.Tree.Spans
import TagMigration.Proofs.Reading.Moved
import TagMigration.Proofs.Reading.Tag
import TagMigration.Proofs.Reading.Lookahead
import TagMigration.Proofs.Reading.Word
import TagMigration.Proofs.Reading.Arguments
import TagMigration.Proofs.Reading.Call
import TagMigration.Proofs.Reading.Inline
import TagMigration.Proofs.Reading.Attribute
import TagMigration.Proofs.Reading.Start
import TagMigration.Proofs.Reading.BlockOpening
import TagMigration.Proofs.Reading.BlockTag
import TagMigration.Proofs.Reading.ElementTag
import TagMigration.Proofs.Reading.Piece
import TagMigration.Proofs.Reading.Run
import TagMigration.Proofs.Reading.Frame
import TagMigration.Proofs.Reading.Spelling
import TagMigration.Proofs.Reading.Spelled
import TagMigration.Proofs.Reading.ReadBack
import TagMigration.Proofs.RoundTrip
import TagMigration.Proofs.Pass.Plain
import TagMigration.Proofs.Pass.Stripping
import TagMigration.Proofs.Reading.Places
import TagMigration.Proofs.Tree.Occurrence
import TagMigration.Proofs.Tree.Twin
import TagMigration.Proofs.Pass.Twins
import TagMigration.Proofs.Reading.Relocation
import TagMigration.Proofs.Reading.Written
import TagMigration.Proofs.Reading.Respelling
import TagMigration.Proofs.Reading.Respelled
import TagMigration.Proofs.Reading.Conditional
import TagMigration.Proofs.Instrumented
import TagMigration.Proofs.Telemetry.Recorded
import TagMigration.Proofs.TwoPhases
import TagMigration.Proofs.Resolution
import TagMigration.Proofs.Absorption
import TagMigration.Proofs.Batches
import TagMigration.Proofs.Reading.Nodes
import TagMigration.Proofs.Locality
import TagMigration.Proofs.Tree.Cuts
import TagMigration.Proofs.Tree.Tiles
import TagMigration.Proofs.Reading.Ordered
import TagMigration.Proofs.Tiling
import TagMigration.Proofs.Project.Frame
import TagMigration.Proofs.Project.HelperFrame
import TagMigration.Proofs.Project.HelperState
import TagMigration.Proofs.Project.BatchRun
import TagMigration.Proofs.Printable
import TagMigration.Proofs.Reading.Given
import TagMigration.Proofs.Reading.BuiltTag
import TagMigration.Proofs.Tree.Merging
import TagMigration.Proofs.Pass.Joined
import TagMigration.Proofs.Reading.TagSpelling
import TagMigration.Proofs.Migrated
import TagMigration.Proofs.Telemetry.UsageSet
import TagMigration.Proofs.Telemetry.Supplied
import TagMigration.Proofs.Telemetry.NameSets
import TagMigration.Proofs.Project.Entries
import TagMigration.Proofs.Project.Contents
import TagMigration.Proofs.Project.HelperWrite
import TagMigration.Proofs.Project.HelperFirst
import TagMigration.Proofs.Project.Reordering
import TagMigration.Proofs.Project.Settled
import TagMigration.Proofs.Project.Reworked
import TagMigration.Proofs.Project.Names
import TagMigration.Proofs.Project.Expansion
import TagMigration.Proofs.Project.Installed
import TagMigration.Proofs.Project.Repeated
import TagMigration.Proofs.Telemetry.Flushes
import TagMigration.Proofs.Ambiguity
import TagMigration.Proofs.Replacement
import TagMigration.Proofs.Arguments
import TagMigration.Proofs.Questions
import TagMigration.Proofs.Unwrapped
import TagMigration.Proofs.Reading.Slices
import TagMigration.Proofs.Agreement
import TagMigration.Proofs.Scanning.Basic
import TagMigration.Proofs.Scanning.Call
import TagMigration.Proofs.Scanning.StartTag
import TagMigration.Proofs.Scanning.Leaf
import TagMigration.Proofs.Scanning.Content
import TagMigration.Proofs.Safety
import TagMigration.Proofs.Expressions
import TagMigration.Proofs.Growth
import TagMigration.Proofs.Project.Changes
import TagMigration.Proofs.Project.Components
import TagMigration.Proofs.Project.Identities
import TagMigration.Proofs.TagNames
import TagMigration.Proofs.Encoding
import TagMigration.Proofs.ScopeEvents
import TagMigration.Proofs.Pass.Visited
import TagMigration.Proofs.ByteOrder
import TagMigration.Proofs.Project.Walk
import TagMigration.Proofs.Project.Listing
import TagMigration.Proofs.Locations
