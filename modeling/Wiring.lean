import Wiring.Candidate
import Wiring.Command
import Wiring.Condition
import Wiring.ConfigurationClass
import Wiring.Context
import Wiring.Decimal.Notation
import Wiring.Decimal.Shortest
import Wiring.Deferred
import Wiring.Descriptor
import Wiring.Descriptor.Decode
import Wiring.Descriptor.Encode
import Wiring.Descriptor.Parse
import Wiring.Document.Flatten
import Wiring.Document.Json
import Wiring.Document.JsonText
import Wiring.Document.Node
import Wiring.Document.Toml
import Wiring.Document.TomlDate
import Wiring.Document.Yaml
import Wiring.Document.Yaml.Cursor
import Wiring.Document.Yaml.Meaning
import Wiring.Document.Yaml.Scalar
import Wiring.Document.Yaml.Token
import Wiring.Environment
import Wiring.Error
import Wiring.ImportLog
import Wiring.Load
import Wiring.Main
import Wiring.Metadata.Annotation
import Wiring.Metadata.Class
import Wiring.Metadata.Reader
import Wiring.Metadata.Vocabulary
import Wiring.Pattern
import Wiring.Pattern.Charset
import Wiring.Pattern.Parse
import Wiring.Placeholder
import Wiring.Placeholder.Segment
import Wiring.Plugin
import Wiring.Precedence
import Wiring.Problem
import Wiring.Profile
import Wiring.Proofs.Batches
import Wiring.Proofs.BeanMethods
import Wiring.Proofs.Candidate
import Wiring.Proofs.Completeness
import Wiring.Proofs.Components
import Wiring.Proofs.Conditions
import Wiring.Proofs.Count
import Wiring.Proofs.Declared
import Wiring.Proofs.Deferred
import Wiring.Proofs.Document.Flatten
import Wiring.Proofs.Document.Path
import Wiring.Proofs.Failure
import Wiring.Proofs.ImportDirectives
import Wiring.Proofs.ImportLog
import Wiring.Proofs.ImportLog.Edits
import Wiring.Proofs.Imports
import Wiring.Proofs.Interfaces
import Wiring.Proofs.Leads
import Wiring.Proofs.Load
import Wiring.Proofs.Marks
import Wiring.Proofs.Methods
import Wiring.Proofs.Outcomes
import Wiring.Proofs.Passes
import Wiring.Proofs.Placeholder.Ending
import Wiring.Proofs.Placeholder.Expansion
import Wiring.Proofs.Placeholder.Guard
import Wiring.Proofs.Placeholder.Modes
import Wiring.Proofs.Placeholder.Segment
import Wiring.Proofs.Placeholder.Template
import Wiring.Proofs.Policy
import Wiring.Proofs.Profile
import Wiring.Proofs.Properties
import Wiring.Proofs.Registry
import Wiring.Proofs.Registry.Edits
import Wiring.Proofs.Remains
import Wiring.Proofs.Scan
import Wiring.Proofs.Sequence
import Wiring.Proofs.Skipping
import Wiring.Proofs.SourceList
import Wiring.Proofs.SourceMerger
import Wiring.Proofs.Survival
import Wiring.Proofs.Table
import Wiring.Proofs.Tree
import Wiring.Proofs.Walk.Attended
import Wiring.Proofs.Walk.Attribution
import Wiring.Proofs.Walk.Contract
import Wiring.Proofs.Walk.Cycles
import Wiring.Proofs.Walk.Explicit
import Wiring.Proofs.Walk.Frame
import Wiring.Proofs.Walk.Growth
import Wiring.Proofs.Walk.Imports
import Wiring.Proofs.Walk.Inherited
import Wiring.Proofs.Walk.Leads
import Wiring.Proofs.Walk.Nesting
import Wiring.Proofs.Walk.Nodes
import Wiring.Proofs.Walk.Notices
import Wiring.Proofs.Walk.Pairing
import Wiring.Proofs.Walk.Provenance
import Wiring.Proofs.Walk.Quiet
import Wiring.Proofs.Walk.Records
import Wiring.Proofs.Walk.Refusal
import Wiring.Proofs.Walk.Registrars
import Wiring.Proofs.Walk.Rooted
import Wiring.Proofs.Walk.Roots
import Wiring.Proofs.Walk.Rules
import Wiring.Proofs.Walk.Stored
import Wiring.Proofs.Walk.Superclasses
import Wiring.Proofs.Walk.Watch
import Wiring.Proofs.Walk.Wrapping
import Wiring.Properties
import Wiring.PropertySource
import Wiring.Registry
import Wiring.Report.Style
import Wiring.Report.Summary
import Wiring.Report.Tree
import Wiring.Resolution
import Wiring.Resource
import Wiring.Resource.FileTree
import Wiring.Resource.Url
import Wiring.Scan
import Wiring.SourceFactory
import Wiring.SourceMerger
import Wiring.Table
import Wiring.Text.Blank
import Wiring.Text.LetterCase
import Wiring.Text.Name
import Wiring.Text.Utf8
import Wiring.Walk
import Wiring.Walk.State
import Wiring.Walk.Step
