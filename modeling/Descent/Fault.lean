import Descent.Diagnostic.Report
import Descent.Text.Cursor

/-!
# Faults

A mismatch is an answer; a fault is not.  A fault ends a parse where it stands: the stack
ran out, a position before the start of a text was read, digits that should have made a
number were not there, a value computed by the grammar was refused, another text that a
value was to be read from was not accepted, or numbers that should have made a span did
not.  Only the first can be turned into a failure, and only by the guarded rule it
happened in.
-/

namespace Descent

/-- Why a parse ended without an answer. -/
inductive Fault where
  /-- The stack ran out. -/
  | stackExhausted (reason : String)
  /-- A position before the start of a text was read. -/
  | beforeStart
  /-- An element was asked for that a sequence of this kind does not have. -/
  | noElement (sequence : String)
  /-- A text was taken for a number and holds no digit. -/
  | notANumber
  /-- A value was refused. -/
  | rejected (reason : String)
  /-- A text that a value was to be read from was not accepted. -/
  | parseFailed (error : ParseFailed Cursor)
  /-- The marked stretch of a failure is not a span. -/
  | invalidSpan (error : Span.Error)
  deriving DecidableEq, Inhabited

namespace Fault

/-- The text of a fault. -/
def message : Fault → String
  | .stackExhausted reason => reason
  | .beforeStart => Text.outOfRange
  | .noElement sequence => sequence ++ " index out of range"
  | .notANumber => "[<class 'decimal.ConversionSyntax'>]"
  | .rejected reason => reason
  | .parseFailed error => error.report.message
  | .invalidSpan error => error.message

end Fault
end Descent
