import BomAssembly.Bom.Basic
import BomAssembly.Bom.Document
import BomAssembly.Command.Configure
import BomAssembly.Command.Desired
import BomAssembly.Command.Generate
import BomAssembly.Command.Intake
import BomAssembly.Command.Output
import BomAssembly.Command.PrepareManifest
import BomAssembly.Command.ReconcileBom
import BomAssembly.Command.StoredRequest
import BomAssembly.Command.Trouble
import BomAssembly.CommandLine.Arguments
import BomAssembly.CommandLine.Invocation
import BomAssembly.CommandLine.Run
import BomAssembly.Confidence
import BomAssembly.Control.Pass
import BomAssembly.Control.Platform
import BomAssembly.Control.Schedule
import BomAssembly.Control.Store
import BomAssembly.Control.Tick
import BomAssembly.Coordinate.Basic
import BomAssembly.Coordinate.Order
import BomAssembly.Coordinate.Printer
import BomAssembly.Coordinate.Reader
import BomAssembly.Coordinate.Similarity
import BomAssembly.Duration
import BomAssembly.Failure
import BomAssembly.FilePath
import BomAssembly.Fingerprint
import BomAssembly.Host.Basic
import BomAssembly.Host.Program
import BomAssembly.Host.Tree
import BomAssembly.Intake.Delivery
import BomAssembly.Intake.NewRequest
import BomAssembly.Intake.Notification
import BomAssembly.JobRun.Desired
import BomAssembly.JobRun.Name
import BomAssembly.JobRun.Observed
import BomAssembly.JobRun.Spec
import BomAssembly.Json.NumberText
import BomAssembly.Json.Reader
import BomAssembly.Json.Record
import BomAssembly.Json.Value
import BomAssembly.Json.Writer
import BomAssembly.Main
import BomAssembly.Manifest.Artifact
import BomAssembly.Manifest.Basic
import BomAssembly.Manifest.Bundle
import BomAssembly.Manifest.CoordinateList
import BomAssembly.Manifest.Detection
import BomAssembly.Manifest.Pom
import BomAssembly.Manifest.PomDocument
import BomAssembly.Manifest.PomJson
import BomAssembly.Number.Binary64
import BomAssembly.Number.DecimalText
import BomAssembly.Number.Shortest
import BomAssembly.Proofs.Control.Aggregation
import BomAssembly.Proofs.Control.Course
import BomAssembly.Proofs.Control.Event
import BomAssembly.Proofs.Control.Gate
import BomAssembly.Proofs.Control.Independence
import BomAssembly.Proofs.Control.LateChange
import BomAssembly.Proofs.Control.Lifecycle
import BomAssembly.Proofs.Control.Observation
import BomAssembly.Proofs.Control.Outage
import BomAssembly.Proofs.Control.Pass
import BomAssembly.Proofs.Control.Platform
import BomAssembly.Proofs.Control.Retry
import BomAssembly.Proofs.Control.Settled
import BomAssembly.Proofs.Control.Stall
import BomAssembly.Proofs.Control.Standing
import BomAssembly.Proofs.Control.Store
import BomAssembly.Proofs.Control.Submission
import BomAssembly.Proofs.Control.TurnByTurn
import BomAssembly.Proofs.Control.Turns
import BomAssembly.Proofs.Coordinate.Canonical
import BomAssembly.Proofs.Coordinate.Identity
import BomAssembly.Proofs.Coordinate.Injectivity
import BomAssembly.Proofs.Coordinate.Reading
import BomAssembly.Proofs.Coordinate.RoundTrip
import BomAssembly.Proofs.Fallible
import BomAssembly.Proofs.JobRun.Desired
import BomAssembly.Proofs.JobRun.Name
import BomAssembly.Proofs.JobRun.Observed
import BomAssembly.Proofs.JobRun.Ownership
import BomAssembly.Proofs.JobRun.Distinct
import BomAssembly.Proofs.Manifest.Origin
import BomAssembly.Proofs.Number.Spelling
import BomAssembly.Proofs.Reconcile.Choices
import BomAssembly.Proofs.Reconcile.Completeness
import BomAssembly.Proofs.Reconcile.Idempotence
import BomAssembly.Proofs.Request.Moves
import BomAssembly.Proofs.Request.StoredForm
import BomAssembly.Proofs.Text.Cutting
import BomAssembly.Proofs.Text.LowerCase
import BomAssembly.Proofs.Text.MapLookup
import BomAssembly.Proofs.Text.PercentEncoding
import BomAssembly.Proofs.Text.Trimming
import BomAssembly.Proofs.Yaml.PlainScalar
import BomAssembly.Proofs.Yaml.Resolution
import BomAssembly.Reconcile
import BomAssembly.Request.Basic
import BomAssembly.Request.Config
import BomAssembly.Request.ConfigDocument
import BomAssembly.Request.Lifecycle
import BomAssembly.Request.OperationDocument
import BomAssembly.Request.Record
import BomAssembly.Settings.Basic
import BomAssembly.Settings.Discovery
import BomAssembly.Settings.Document
import BomAssembly.Settings.Example
import BomAssembly.Settings.Schema
import BomAssembly.Text.Blank
import BomAssembly.Text.CaseTable
import BomAssembly.Text.EscapeTable
import BomAssembly.Text.LetterCase
import BomAssembly.Text.Percent
import BomAssembly.Text.Quoted
import BomAssembly.Text.SortedMap
import BomAssembly.Text.Split
import BomAssembly.Time.Instant
import BomAssembly.Time.InstantText
import BomAssembly.Xml.Content
import BomAssembly.Xml.Markup
import BomAssembly.Xml.Node
import BomAssembly.Xml.Reader
import BomAssembly.Xml.Writer
import BomAssembly.Yaml.AsJson
import BomAssembly.Yaml.Character
import BomAssembly.Yaml.Lexer
import BomAssembly.Yaml.Node
import BomAssembly.Yaml.PlainValue
import BomAssembly.Yaml.Record
import BomAssembly.Yaml.ScalarText
import BomAssembly.Yaml.TagText
import BomAssembly.Yaml.Token
import BomAssembly.Yaml.Typed
import BomAssembly.Yaml.Value
import BomAssembly.Yaml.Writer
import BomAssembly.Proofs.Request.RoundTrip
import BomAssembly.Proofs.Yaml.QuotedScalar
import BomAssembly.Proofs.Yaml.BlockScalar
import BomAssembly.Proofs.Yaml.Steps
import BomAssembly.Proofs.Yaml.Leaves
import BomAssembly.Proofs.Yaml.Layout
import BomAssembly.Proofs.Yaml.Stream
import BomAssembly.Proofs.Yaml.Tree
import BomAssembly.Proofs.Yaml.Meaning
import BomAssembly.Proofs.Reconcile.References
import BomAssembly.Proofs.Reconcile.Selection
import BomAssembly.Proofs.Reconcile.DeclarationOrder
import BomAssembly.Proofs.CommandLine.Arguments
import BomAssembly.Proofs.Request.OperationDocument
import BomAssembly.Proofs.Command.Generate
import BomAssembly.Proofs.Json.Extent
import BomAssembly.Proofs.Json.Layout
import BomAssembly.Proofs.Json.RoundTrip
import BomAssembly.Proofs.Json.Record
import BomAssembly.Proofs.Bom.Document
import BomAssembly.Proofs.Bom.Kept
import BomAssembly.Proofs.Bom.RoundTrip
import BomAssembly.Proofs.Request.Check
import BomAssembly.Proofs.Intake.Delivery
import BomAssembly.Proofs.Request.Edits
import BomAssembly.Proofs.Json.Shape
import BomAssembly.Proofs.JobRun.SerialForm
import BomAssembly.Proofs.Xml.Layout
import BomAssembly.Proofs.Xml.Reading
import BomAssembly.Proofs.Xml.Content
import BomAssembly.Proofs.Manifest.PomDocument
import BomAssembly.Proofs.Manifest.Bundle
import BomAssembly.Proofs.FilePath
import BomAssembly.Proofs.Host.Tree
import BomAssembly.Proofs.Command.Trouble
import BomAssembly.Proofs.Command.ReconcileBom
import BomAssembly.Proofs.Request.RecordDocument
import BomAssembly.Proofs.Request.Preparation
import BomAssembly.Proofs.Command.PrepareManifest
import BomAssembly.Proofs.Json.Written
import BomAssembly.Proofs.Yaml.Brackets
import BomAssembly.Proofs.Json.Escapes
import BomAssembly.Proofs.Json.Stream
import BomAssembly.Proofs.Json.Nodes
import BomAssembly.Proofs.Json.Meaning
import BomAssembly.Proofs.Yaml.Agreement
import BomAssembly.Proofs.Request.JsonDocument
import BomAssembly.Proofs.Request.Life
import BomAssembly.Proofs.Request.GivenText
import BomAssembly.Proofs.Coordinate.Interchange
import BomAssembly.Proofs.Coordinate.VersionAgreement
import BomAssembly.Proofs.Text.ByteOrder
import BomAssembly.Proofs.FileName
import BomAssembly.Proofs.Settings.EnhancedPath
import BomAssembly.Proofs.Manifest.Detection
import BomAssembly.Proofs.Manifest.Interpolation
import BomAssembly.Proofs.Control.Schedule
