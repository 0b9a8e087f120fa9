import Eligibility.Blob.Basic
import Eligibility.Field.Farmer
import Eligibility.Field.Registry
import Eligibility.Json.Report
import Eligibility.Json.Ruleset
import Eligibility.Name
import Eligibility.Ruleset.Compile
import Eligibility.Proofs.Sql.Token
import Eligibility.Proofs.Sql.Item
import Eligibility.Proofs.Sql.Formula
import Eligibility.Proofs.Sql.Reading
import Eligibility.Proofs.Sql.Numeral
import Eligibility.Proofs.Sql.Name
import Eligibility.Proofs.Sql.Text
import Eligibility.Proofs.Sql.Precedence
import Eligibility.Proofs.Field
import Eligibility.Proofs.Plan.Subject
import Eligibility.Proofs.Plan.Warning
import Eligibility.Proofs.Plan.Leaf
import Eligibility.Proofs.Plan.Operand
import Eligibility.Proofs.Plan.Condition
import Eligibility.Proofs.Plan.Negation
import Eligibility.Proofs.Sql.Alike
import Eligibility.Proofs.Plan.Quotation
import Eligibility.Proofs.Sql.Score
import Eligibility.Proofs.Ruleset.Clauses
import Eligibility.Proofs.Script.Scan
import Eligibility.Proofs.Script.Piece
import Eligibility.Proofs.Script.Quoted
import Eligibility.Proofs.Script.Text
import Eligibility.Proofs.Script.Pieces
import Eligibility.Proofs.Script.Reading
import Eligibility.Proofs.Script.Grammar
import Eligibility.Proofs.Script.RoundTrip
import Eligibility.Proofs.Token.Layout
import Eligibility.Proofs.Token.Number
import Eligibility.Proofs.Token.Integer
import Eligibility.Proofs.Script.Derivation
import Eligibility.Proofs.Script.Reader
import Eligibility.Proofs.Script.Acceptance
import Eligibility.Proofs.Script.Account
import Eligibility.Proofs.Ruleset.Counts
import Eligibility.Proofs.Ruleset.Selection
import Eligibility.Proofs.Wire.Room
import Eligibility.Proofs.Blob.Header
import Eligibility.Proofs.Blob.RoundTrip
import Eligibility.Proofs.Blob.Damage
import Eligibility.Proofs.Registry.History
import Eligibility.Proofs.Registry.Loads
import Eligibility.Proofs.Registry.Scopes
import Eligibility.Proofs.Registry.Lookup
import Eligibility.Proofs.Script.Breaks
import Eligibility.Proofs.Script.Places
import Eligibility.Proofs.Script.Case
import Eligibility.Proofs.Token.Joined
import Eligibility.Proofs.Script.Moved
import Eligibility.Proofs.Script.Clauses
import Eligibility.Proofs.Script.Line
import Eligibility.Proofs.Script.Lines
import Eligibility.Proofs.Ruleset.Integers
import Eligibility.Proofs.Token.Zone
import Eligibility.Proofs.Token.Dotted
import Eligibility.Proofs.Plan.Uses
import Eligibility.Proofs.Cut
import Eligibility.Proofs.Field.Plain
import Eligibility.Proofs.Field.Resolution
import Eligibility.Proofs.Plan.Names
import Eligibility.Proofs.Script.CutOff
import Eligibility.Proofs.Script.Draft
import Eligibility.Proofs.Token.Edge
import Eligibility.Proofs.Token.Comment
import Eligibility.Proofs.Script.Alike
import Eligibility.Proofs.Script.Comment
import Eligibility.Proofs.Sql.Pattern
import Eligibility.Proofs.Plan.Filter
import Eligibility.Proofs.Plan.Agreement
import Eligibility.Proofs.Plan.Support
import Eligibility.Proofs.Script.Shapes
import Eligibility.Proofs.Ruleset.Silence
import Eligibility.Proofs.Plan.Pass
import Eligibility.Proofs.Plan.Regrouping
import Eligibility.Proofs.Sql.Scope
import Eligibility.Proofs.Plan.Correlation
import Eligibility.Proofs.Field.Convention
import Eligibility.Proofs.Field.Order
import Eligibility.Proofs.Ruleset.Codes
import Eligibility.Proofs.Token.Quoted
import Eligibility.Proofs.Number.Rounding
import Eligibility.Proofs.Number.Shortest
import Eligibility.Proofs.Number.Text
import Eligibility.Proofs.Script.Numeral
import Eligibility.Proofs.Rule.Code
import Eligibility.Proofs.Entries
import Eligibility.Proofs.Registry.Groups
import Eligibility.Proofs.Script.Blank
import Eligibility.Proofs.Cursor.Within
