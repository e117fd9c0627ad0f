import Descent.Diagnostic.Basic

/-!
# Reports

A report is what reaches the caller when an operation gives up: a message, and the
diagnostic behind it if there is one.  A report of a failed parse also says on which input
and where the parse failed.
-/

namespace Descent

/-- A message, with the diagnostic it was taken from if there is one. -/
structure Report where
  message : String
  diagnostic : Option Diagnostic := none
  deriving DecidableEq

namespace Report

/-- A report that is only a message. -/
def ofMessage (message : String) : Report := { message := message }

/-- A report of a problem that has a diagnostic. -/
def ofDiagnostic (d : Diagnostic) : Report := { message := d.message, diagnostic := some d }

end Report

/-- A failed parse: the report, the input of the failure if it is known, and the location
of the mismatch in it. -/
structure ParseFailed (ι : Type) where
  report : Report
  input : Option ι := none
  location : Int := 0
  deriving DecidableEq

end Descent
