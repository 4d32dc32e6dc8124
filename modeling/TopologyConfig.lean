import TopologyConfig.Calendar
import TopologyConfig.ConfigMap.Append
import TopologyConfig.ConfigMap.Basic
import TopologyConfig.ConfigMap.Merge
import TopologyConfig.ConfigMap.Methods
import TopologyConfig.ConfigMap.Registration
import TopologyConfig.ConfigMap.Seal
import TopologyConfig.ConfigMap.Transfer
import TopologyConfig.Document
import TopologyConfig.Document.File
import TopologyConfig.Environment
import TopologyConfig.Error
import TopologyConfig.FileTree
import TopologyConfig.Json.Printer
import TopologyConfig.Json.Reader
import TopologyConfig.Loader.Basic
import TopologyConfig.Loader.Defaults
import TopologyConfig.Loader.Overrides
import TopologyConfig.Loader.Run
import TopologyConfig.Logging.Fault
import TopologyConfig.Logging.Format
import TopologyConfig.Logging.Record
import TopologyConfig.Logging.Setup
import TopologyConfig.Logging.Template
import TopologyConfig.Number.Binary64
import TopologyConfig.Number.Decimal
import TopologyConfig.Number.Numeral
import TopologyConfig.Number.Places
import TopologyConfig.Path
import TopologyConfig.Proofs.ConfigMap.Association
import TopologyConfig.Proofs.ConfigMap.Basic
import TopologyConfig.Proofs.ConfigMap.Calls
import TopologyConfig.Proofs.ConfigMap.Copying
import TopologyConfig.Proofs.ConfigMap.Edit
import TopologyConfig.Proofs.ConfigMap.LayerValidity
import TopologyConfig.Proofs.ConfigMap.Layers
import TopologyConfig.Proofs.ConfigMap.Sealing
import TopologyConfig.Proofs.Document.Contents
import TopologyConfig.Proofs.Document.Fault
import TopologyConfig.Proofs.Document.HandedOn
import TopologyConfig.Proofs.Entries
import TopologyConfig.Proofs.Json.RoundTrip
import TopologyConfig.Proofs.Loader.History
import TopologyConfig.Proofs.Loader.Items
import TopologyConfig.Proofs.Loader.Layers
import TopologyConfig.Proofs.Loader.Overrides
import TopologyConfig.Proofs.Loader.Saving
import TopologyConfig.Proofs.Logging.Setup
import TopologyConfig.Proofs.Number.DecimalText
import TopologyConfig.Proofs.Number.Numeral
import TopologyConfig.Proofs.Number.Rounding
import TopologyConfig.Proofs.Number.Shortest
import TopologyConfig.Proofs.Schema.Explanation
import TopologyConfig.Proofs.Schema.Frozen
import TopologyConfig.Proofs.Schema.Stored
import TopologyConfig.Proofs.Session.Alter
import TopologyConfig.Proofs.Session.Closed
import TopologyConfig.Proofs.Session.Dictionary
import TopologyConfig.Proofs.Session.Failure
import TopologyConfig.Proofs.Session.Fixed
import TopologyConfig.Proofs.Session.Immutability
import TopologyConfig.Proofs.Session.Inside
import TopologyConfig.Proofs.Session.Keys
import TopologyConfig.Proofs.Session.Marked
import TopologyConfig.Proofs.Session.Move
import TopologyConfig.Proofs.Session.Path
import TopologyConfig.Proofs.Session.Proper
import TopologyConfig.Proofs.Session.Refresh
import TopologyConfig.Proofs.Session.Registration
import TopologyConfig.Proofs.Session.Run
import TopologyConfig.Proofs.Session.Transfer
import TopologyConfig.Proofs.Session.Validity
import TopologyConfig.Proofs.Session.Walk
import TopologyConfig.Proofs.Settings
import TopologyConfig.Proofs.Sorting
import TopologyConfig.Proofs.Value.Forms
import TopologyConfig.Proofs.Value.InPlace
import TopologyConfig.Proofs.Value.Plain
import TopologyConfig.Proofs.Value.Proper
import TopologyConfig.Proofs.Value.Subscript
import TopologyConfig.Proofs.Yaml.Composition
import TopologyConfig.Proofs.Yaml.Printable
import TopologyConfig.Proofs.Yaml.RoundTrip
import TopologyConfig.Schema.Catalogue
import TopologyConfig.Schema.Fault
import TopologyConfig.Schema.Lookup
import TopologyConfig.Schema.MetricsConsumer
import TopologyConfig.Schema.Registry
import TopologyConfig.Schema.Shape
import TopologyConfig.Schema.Violation
import TopologyConfig.Session
import TopologyConfig.Settings
import TopologyConfig.Sorting
import TopologyConfig.Text.Base64
import TopologyConfig.Text.Blank
import TopologyConfig.Text.Case
import TopologyConfig.Text.CaseTable
import TopologyConfig.Text.Newline
import TopologyConfig.Text.PrintableTable
import TopologyConfig.Text.Quoted
import TopologyConfig.Text.Utf8
import TopologyConfig.Value.Basic
import TopologyConfig.Value.Display
import TopologyConfig.Value.Entries
import TopologyConfig.Value.Equality
import TopologyConfig.Value.Freeze
import TopologyConfig.Value.InPlace
import TopologyConfig.Value.Iteration
import TopologyConfig.Value.Method
import TopologyConfig.Value.Misuse
import TopologyConfig.Value.Operator
import TopologyConfig.Value.Order
import TopologyConfig.Value.Search
import TopologyConfig.Yaml.Cursor
import TopologyConfig.Yaml.Draft
import TopologyConfig.Yaml.Fault
import TopologyConfig.Yaml.Node
import TopologyConfig.Yaml.Printer
import TopologyConfig.Yaml.Reader
import TopologyConfig.Yaml.Scalar
import TopologyConfig.Yaml.ScalarValue
import TopologyConfig.Yaml.Sheet
import TopologyConfig.Yaml.Tag
import TopologyConfig.Yaml.TextForm
import TopologyConfig.Yaml.Token
