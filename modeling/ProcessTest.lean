import ProcessTest.Artifact.Brief
import ProcessTest.Artifact.BrowserScript
import ProcessTest.Artifact.DataSuite
import ProcessTest.Artifact.DatabaseChecks
import ProcessTest.Artifact.Error
import ProcessTest.Artifact.Generation
import ProcessTest.Artifact.Lines
import ProcessTest.Artifact.Script
import ProcessTest.Artifact.Settled
import ProcessTest.Artifact.Sql
import ProcessTest.Bindings
import ProcessTest.Calendar
import ProcessTest.Clock
import ProcessTest.CommandLine.Command
import ProcessTest.CommandLine.Execution
import ProcessTest.CommandLine.Outcome
import ProcessTest.CommandLine.Starter
import ProcessTest.Condition
import ProcessTest.Definition
import ProcessTest.Definition.Decoding
import ProcessTest.Definition.Encoding
import ProcessTest.Definition.Schema
import ProcessTest.Digest.Blake3
import ProcessTest.Digest.Fingerprint
import ProcessTest.Document
import ProcessTest.Files.Path
import ProcessTest.Files.Pattern
import ProcessTest.Files.System
import ProcessTest.Files.Tree
import ProcessTest.Json.Reader
import ProcessTest.Json.Text
import ProcessTest.Main
import ProcessTest.Number.Binary64
import ProcessTest.Number.Decimal
import ProcessTest.Number.DecimalText
import ProcessTest.Number.Literal
import ProcessTest.Number.Rounding
import ProcessTest.Number.Shortest
import ProcessTest.Rule.Equation
import ProcessTest.Rule.Journal
import ProcessTest.Rule.Operand
import ProcessTest.Rule.Tax
import ProcessTest.Rule.Transition
import ProcessTest.Rule.Verdict
import ProcessTest.Run.Action
import ProcessTest.Run.Assertion
import ProcessTest.Run.Backend
import ProcessTest.Run.Event
import ProcessTest.Run.Execution
import ProcessTest.Run.Log
import ProcessTest.Run.Result
import ProcessTest.Run.Step
import ProcessTest.Run.Summary
import ProcessTest.Simulation
import ProcessTest.SmartCode
import ProcessTest.Store
import ProcessTest.Template
import ProcessTest.Text.Blank
import ProcessTest.Text.Cut
import ProcessTest.Text.Digits
import ProcessTest.Toml.Moment
import ProcessTest.Toml.Number
import ProcessTest.Toml.Quoted
import ProcessTest.Toml.Reader
import ProcessTest.Toml.Source
import ProcessTest.Toml.Table
import ProcessTest.Validation.Checker
import ProcessTest.Validation.Fault
import ProcessTest.Validation.Fields
import ProcessTest.Value
import ProcessTest.Yaml.Core
import ProcessTest.Yaml.Node
import ProcessTest.Yaml.Reader
import ProcessTest.Yaml.Scalar
import ProcessTest.Yaml.Source
import ProcessTest.Yaml.Token
import ProcessTest.Proofs.Decoding.Success
import ProcessTest.Proofs.Validation.Coverage
import ProcessTest.Proofs.Decoding.Parts
import ProcessTest.Proofs.Bindings.Growth
import ProcessTest.Proofs.Run.Account
import ProcessTest.Proofs.Run.Commits
import ProcessTest.Proofs.Run.Retention
import ProcessTest.Proofs.Json.Words
import ProcessTest.Proofs.Toml.Words
import ProcessTest.Proofs.Validation.Reading
import ProcessTest.Proofs.Text.Digits
import ProcessTest.Proofs.Store.Integrity
import ProcessTest.Proofs.Run.Hosting
import ProcessTest.Proofs.Validation.WellFormed
import ProcessTest.Proofs.Store.Audit
import ProcessTest.Proofs.Artifact.Settled
import ProcessTest.Proofs.Template.Keys
import ProcessTest.Proofs.Store.Isolation
import ProcessTest.Proofs.Run.Trace
import ProcessTest.Proofs.Encoding.RoundTrip
import ProcessTest.Proofs.Encoding.Lossless
import ProcessTest.Proofs.Decoding.Filled
import ProcessTest.Proofs.Run.Filled
import ProcessTest.Proofs.Run.DryRun
import ProcessTest.Proofs.Template.Reference
import ProcessTest.Proofs.Run.Stopped
import ProcessTest.Proofs.Digest.Identity
import ProcessTest.Proofs.Run.Attempts
import ProcessTest.Proofs.Artifact.Exposed
import ProcessTest.Proofs.Condition.Growth
import ProcessTest.Proofs.Condition.Reading
import ProcessTest.Proofs.Template.Sole
import ProcessTest.Proofs.Number.Nearest
import ProcessTest.Proofs.Number.Fit
import ProcessTest.Proofs.Number.Arithmetic
import ProcessTest.Proofs.Rule.Accounting
import ProcessTest.Proofs.Rule.Tax
import ProcessTest.Proofs.Run.Expectation
import ProcessTest.Proofs.SmartCode.Grammar
import ProcessTest.Proofs.Artifact.Quoting
import ProcessTest.Proofs.Artifact.Expression
import ProcessTest.Proofs.Artifact.Variables
import ProcessTest.Proofs.Json.Printable
import ProcessTest.Proofs.Json.RoundTrip
import ProcessTest.Proofs.Run.Log
import ProcessTest.Proofs.Artifact.Sealed
import ProcessTest.Proofs.Bindings.Absorption
import ProcessTest.Proofs.Template.Root
import ProcessTest.Proofs.Clock.Calendar
import ProcessTest.Proofs.Clock.Text
import ProcessTest.Proofs.Clock.Shift
import ProcessTest.Proofs.Run.Answers
