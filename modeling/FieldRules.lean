import FieldRules.Main
import FieldRules.Proofs.Message.Substitution
import FieldRules.Proofs.Rule.RoundTrip
import FieldRules.Proofs.Session.Evaluation
import FieldRules.Proofs.Registry.Lookup
import FieldRules.Proofs.Registry.Messages
import FieldRules.Proofs.Session.Submission
import FieldRules.Proofs.Run.Results
import FieldRules.Proofs.Run.Rewording
import FieldRules.Proofs.Rule.BuiltIn
import FieldRules.Proofs.Run.Acceptance
import FieldRules.Proofs.Session.Questions
import FieldRules.Proofs.Registry.History
import FieldRules.Proofs.Record.Insertion
import FieldRules.Proofs.Json.Token
import FieldRules.Proofs.Json.Rendering
import FieldRules.Proofs.Record.Entries
import FieldRules.Proofs.Record.RoundTrip
import FieldRules.Proofs.Json.Tabulated
import FieldRules.Proofs.Record.Description
import FieldRules.Proofs.Record.Data
import FieldRules.Proofs.Session.Lookup
import FieldRules.Proofs.Session.Composition
import FieldRules.Proofs.Session.FieldNames
import FieldRules.Proofs.Run.Verdict
import FieldRules.Proofs.Rule.Canonical
import FieldRules.Proofs.Text.Case
import FieldRules.Proofs.Rule.FileType
import FieldRules.Proofs.Session.FileType
import FieldRules.Proofs.Number.Order
import FieldRules.Proofs.Rule.DigitsBetween
import FieldRules.Proofs.Number.Value
import FieldRules.Proofs.Number.Loose
import FieldRules.Proofs.Rule.Bounds
import FieldRules.Proofs.Text.Pattern
import FieldRules.Proofs.Rule.Email
import FieldRules.Proofs.Rule.Displayed
import FieldRules.Proofs.Number.Radix
import FieldRules.Proofs.Record.History
import FieldRules.Proofs.Json.Integer
import FieldRules.Proofs.Record.Integers
import FieldRules.Proofs.Log.SensitiveNames
import FieldRules.Proofs.Log.Redaction
import FieldRules.Proofs.Number.Shortest
import FieldRules.Proofs.Json.Double
import FieldRules.Proofs.Rule.Json
import FieldRules.Proofs.Session.Reported
import FieldRules.Proofs.Run.Locations
import FieldRules.Proofs.Run.Accounting
import FieldRules.Proofs.Text.Lines
import FieldRules.Proofs.Output.Colours
import FieldRules.Proofs.Storage.Write
import FieldRules.Proofs.Yaml.Cursor
import FieldRules.Proofs.Yaml.Quoted
import FieldRules.Proofs.Yaml.Plain
import FieldRules.Proofs.Yaml.Literal
import FieldRules.Proofs.Yaml.Lexer
import FieldRules.Proofs.Yaml.Scalar
import FieldRules.Proofs.Yaml.Rendering
import FieldRules.Proofs.Yaml.Tree
import FieldRules.Proofs.Config.Reload
