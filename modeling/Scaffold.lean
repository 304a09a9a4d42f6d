import Scaffold.Artifact.Basic
import Scaffold.Artifact.Migration
import Scaffold.Attachment.Fragments
import Scaffold.Backup.Manifest
import Scaffold.Backup.Rollback
import Scaffold.Backup.Store
import Scaffold.Binary64.Basic
import Scaffold.Binary64.Decimal
import Scaffold.Binary64.Size
import Scaffold.Calendar
import Scaffold.Code.Crud
import Scaffold.Code.Destroy
import Scaffold.Code.Model
import Scaffold.Code.Rules
import Scaffold.Code.Sample
import Scaffold.Code.Stmt
import Scaffold.Code.Store
import Scaffold.Code.Update
import Scaffold.Code.Variables
import Scaffold.Command.Line
import Scaffold.Command.Options
import Scaffold.Command.Perform
import Scaffold.Configuration.Basic
import Scaffold.Digest.Sha256
import Scaffold.Disk.Basic
import Scaffold.Disk.Glob
import Scaffold.Disk.Operations
import Scaffold.Disk.Path
import Scaffold.Entity.Basic
import Scaffold.Entity.Component
import Scaffold.Entries
import Scaffold.Field.Basic
import Scaffold.Field.Column
import Scaffold.Field.Rule
import Scaffold.Field.Sample
import Scaffold.Field.Tokens
import Scaffold.Generation.Pipeline
import Scaffold.Generation.Rendering
import Scaffold.Generation.Report
import Scaffold.Generation.Writing
import Scaffold.Log
import Scaffold.Main
import Scaffold.Name.Case
import Scaffold.Name.Plural
import Scaffold.Name.Words
import Scaffold.Nesting.Resolver
import Scaffold.Relation.Basic
import Scaffold.Relation.Block
import Scaffold.Route.File
import Scaffold.Run.Basic
import Scaffold.Run.Failure
import Scaffold.Run.Input
import Scaffold.Schema.Basic
import Scaffold.Settings.Basic
import Scaffold.Shape.Problem
import Scaffold.Shape.Reading
import Scaffold.Stub.Defaults
import Scaffold.Stub.Source
import Scaffold.Stub.Template
import Scaffold.Text.Blank
import Scaffold.Text.Digit
import Scaffold.Text.Lines
import Scaffold.Text.Pieces
import Scaffold.Text.Printable
import Scaffold.Text.Quoted
import Scaffold.Text.Utf8
import Scaffold.Validation.Checks
import Scaffold.Validation.Issue
import Scaffold.Validation.Report
import Scaffold.Value.Basic
import Scaffold.Value.Json.Printer
import Scaffold.Value.Json.Reader
import Scaffold.Value.Literal
import Scaffold.Yaml.Break
import Scaffold.Yaml.Fault
import Scaffold.Yaml.Node
import Scaffold.Yaml.Node.Reader
import Scaffold.Yaml.Reader
import Scaffold.Yaml.Scalar.Moment
import Scaffold.Yaml.Scalar.Number
import Scaffold.Yaml.Spelling
import Scaffold.Yaml.Tag
import Scaffold.Yaml.Token
import Scaffold.Yaml.Token.Lexer
import Scaffold.Yaml.Token.Name
import Scaffold.Proofs.Nesting.Imports
import Scaffold.Proofs.Code.Payload
import Scaffold.Proofs.Configuration.Soundness
import Scaffold.Proofs.Configuration.EagerLoads
import Scaffold.Proofs.Entity.Components
import Scaffold.Proofs.Code.Factories
import Scaffold.Proofs.Configuration.Relations
import Scaffold.Proofs.Name.Runs
import Scaffold.Proofs.Name.Studly
import Scaffold.Proofs.Backup.Manifest
import Scaffold.Proofs.Backup.Migrations
import Scaffold.Proofs.Backup.Snapshot
import Scaffold.Proofs.Disk.SafeWriting
import Scaffold.Proofs.Backup.Creation
import Scaffold.Proofs.Configuration.Building
import Scaffold.Proofs.Generation.Again
import Scaffold.Proofs.Generation.Completion
import Scaffold.Proofs.Generation.Distinct
import Scaffold.Proofs.Generation.Protection
import Scaffold.Proofs.Generation.Stopping
import Scaffold.Proofs.Backup.Recovery
import Scaffold.Proofs.Backup.Listing
import Scaffold.Proofs.Generation.OneToOne
import Scaffold.Proofs.Generation.Undoing
import Scaffold.Proofs.Code.Assigned
import Scaffold.Proofs.Code.Fresh
import Scaffold.Proofs.Code.Rules
import Scaffold.Proofs.Nesting.Caching
import Scaffold.Proofs.Schema.Order
import Scaffold.Proofs.Configuration.Order
import Scaffold.Proofs.Generation.Order
import Scaffold.Proofs.Backup.Fidelity
import Scaffold.Proofs.Backup.Damage
import Scaffold.Proofs.Generation.Accounts
import Scaffold.Proofs.Field.Default
import Scaffold.Proofs.Field.Definition
import Scaffold.Proofs.Route.Registration
import Scaffold.Proofs.Route.Sequence
import Scaffold.Proofs.Code.Releases
import Scaffold.Proofs.Code.Layout
import Scaffold.Proofs.Code.Replacing
import Scaffold.Proofs.Code.Mentions
import Scaffold.Proofs.Code.Reads
import Scaffold.Proofs.Code.Splitting
import Scaffold.Proofs.Code.Brackets
import Scaffold.Proofs.Code.Excerpts
import Scaffold.Proofs.Disk.Failing
import Scaffold.Proofs.Generation.Failing
import Scaffold.Proofs.Generation.Verdict
import Scaffold.Proofs.Backup.Reporting
import Scaffold.Proofs.Backup.Isolation
import Scaffold.Proofs.Backup.Pruning
import Scaffold.Proofs.Generation.Warnings
import Scaffold.Proofs.Command.Numbers
import Scaffold.Proofs.Command.Cleanup
import Scaffold.Proofs.Calendar
import Scaffold.Proofs.Generation.Sorting
import Scaffold.Proofs.Stub.Template
import Scaffold.Proofs.Relation.Block
import Scaffold.Proofs.Entity.Rereading
import Scaffold.Proofs.Text.QuotedList
import Scaffold.Proofs.Name.Words
import Scaffold.Proofs.Name.Chunks
import Scaffold.Proofs.Name.Patterns
import Scaffold.Proofs.Nesting.BackReference
