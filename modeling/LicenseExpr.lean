import LicenseExpr.Text.Class
import LicenseExpr.Raised
import LicenseExpr.Text.CodePoint
import LicenseExpr.Text.Integer
import LicenseExpr.Text.Hex
import LicenseExpr.Text.Quoted
import LicenseExpr.Text.Json
import LicenseExpr.Text.Utf8
import LicenseExpr.Text.Lines
import LicenseExpr.Text.Ascending
import LicenseExpr.Decimal.Shortest
import LicenseExpr.Decimal.Layout
import LicenseExpr.Decimal.Reading
import LicenseExpr.Value.Moment
import LicenseExpr.Value
import LicenseExpr.License
import LicenseExpr.Draft
import LicenseExpr.Draft.Style
import LicenseExpr.Draft.Shape
import LicenseExpr.Draft.Tokens
import LicenseExpr.Draft.Render
import LicenseExpr.Draft.Facade
import LicenseExpr.Recognizer
import LicenseExpr.Grammar
import LicenseExpr.Nesting
import LicenseExpr.Reading
import LicenseExpr.Operand
import LicenseExpr.Toml.Lexeme
import LicenseExpr.Toml.Scalar
import LicenseExpr.Toml.Tree
import LicenseExpr.Toml.Document
import LicenseExpr.Settings
import LicenseExpr.Settings.File
import LicenseExpr.Fault
import LicenseExpr.Log.Event
import LicenseExpr.Log.Record
import LicenseExpr.Log.Line
import LicenseExpr.Subject
import LicenseExpr.Operation
import LicenseExpr.Session
import LicenseExpr.Proofs.Word
import LicenseExpr.Proofs.Longest
import LicenseExpr.Proofs.Spelling
import LicenseExpr.Proofs.Delimited
import LicenseExpr.Proofs.Derivation
import LicenseExpr.Proofs.Descent
import LicenseExpr.Proofs.Acceptance
import LicenseExpr.Proofs.Locality
import LicenseExpr.Proofs.Normal
import LicenseExpr.Proofs.Parentheses
import LicenseExpr.Proofs.Depth
import LicenseExpr.Proofs.Limit
import LicenseExpr.Proofs.Scan
import LicenseExpr.Proofs.Canonical
import LicenseExpr.Proofs.Position
import LicenseExpr.Proofs.Regrouping
import LicenseExpr.Proofs.Operands
import LicenseExpr.Proofs.Reporting
import LicenseExpr.Proofs.Handlers
import LicenseExpr.Proofs.Entries
import LicenseExpr.Proofs.Shortening
import LicenseExpr.Proofs.Escapes
import LicenseExpr.Proofs.Tables
import LicenseExpr.Proofs.Complaints
import LicenseExpr.Proofs.Loading
import LicenseExpr.Proofs.Console
import LicenseExpr.Proofs.Lines
import LicenseExpr.Proofs.Equality
import LicenseExpr.Proofs.Refusal
import LicenseExpr.Proofs.ForeignText
import LicenseExpr.Proofs.Licenses
import LicenseExpr.Proofs.Literals
