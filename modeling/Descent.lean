import Descent.Depth.Block
import Descent.Depth.Clamp
import Descent.Depth.Guard
import Descent.Diagnostic.Basic
import Descent.Diagnostic.Report
import Descent.Diagnostic.Span
import Descent.Fault
import Descent.Grammar.Basic
import Descent.Grammar.Eval
import Descent.Grammar.Reference
import Descent.Input
import Descent.Json.Derivation
import Descent.Json.Document
import Descent.Json.Equality
import Descent.Json.Grammar
import Descent.Json.Path
import Descent.Json.Plain
import Descent.Json.Printer
import Descent.Json.Value
import Descent.Limits
import Descent.Log
import Descent.Number.Decimal
import Descent.Number.Grouped
import Descent.Number.Numeral
import Descent.Number.Signed
import Descent.Outcome
import Descent.Parse
import Descent.Parser.Basic
import Descent.Parser.Choice
import Descent.Parser.Guarded
import Descent.Parser.Repetition
import Descent.Parser.Sequence
import Descent.Proofs.Alike
import Descent.Proofs.Choice
import Descent.Proofs.Clamping
import Descent.Proofs.Congruence
import Descent.Proofs.Consumption
import Descent.Proofs.Farthest
import Descent.Proofs.GuardBalance
import Descent.Proofs.Json.Addresses
import Descent.Proofs.Json.Containers
import Descent.Proofs.Json.Documents
import Descent.Proofs.Json.Equality
import Descent.Proofs.Json.Hashing
import Descent.Proofs.Json.Lookup
import Descent.Proofs.Json.Members
import Descent.Proofs.Json.Parts
import Descent.Proofs.Json.Prefixes
import Descent.Proofs.Json.Rejection
import Descent.Proofs.Json.RoundTrip
import Descent.Proofs.Json.Sameness
import Descent.Proofs.Json.Tokens
import Descent.Proofs.Json.Values
import Descent.Proofs.Json.Written
import Descent.Proofs.Language
import Descent.Proofs.Literal
import Descent.Proofs.Longest
import Descent.Proofs.Lossless
import Descent.Proofs.Number.Positional
import Descent.Proofs.Number.Rational
import Descent.Proofs.Parentheses
import Descent.Proofs.Positions
import Descent.Proofs.RaisedLimits
import Descent.Proofs.Reading
import Descent.Proofs.Repeated
import Descent.Proofs.Repetition
import Descent.Proofs.Reporting
import Descent.Proofs.Sections
import Descent.Proofs.Sequencing
import Descent.Proofs.Shift
import Descent.Proofs.Suffix
import Descent.Proofs.Termination
import Descent.Proofs.View
import Descent.Proofs.Window
import Descent.Run
import Descent.Symbols
import Descent.Text.CharClass
import Descent.Text.Cursor
import Descent.Text.Parse
import Descent.Text.Position
import Descent.Text.Primitive
import Descent.Text.Printable
import Descent.Text.Quoted
import Descent.Text.Render
import Descent.Text.Slice
