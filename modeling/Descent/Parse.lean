import Descent.Diagnostic.Report
import Descent.Parser.Basic

/-!
# Parsing for a caller

A caller wants a value or a report.  `Parser.parse` runs a parser once on an input; it is
the one place where a failure turns from an outcome into a report.  What the report says
is up to the input type: a view renders a failing input, and may know the span of it.
-/

namespace Descent

/-- How the failures on an input type are shown. -/
structure FailureView (ι : Type) where
  /-- The message for a failing input and a location. -/
  render : ι → Int → Except Fault String
  /-- The span for a failing input and a location, if the inputs have positions. -/
  locate : Option (ι → Int → Except Fault Span) := none

namespace FailureView

/-- The view that shows nothing but the location. -/
def plain {ι : Type} : FailureView ι where
  render _ location := .ok ("Parse failed at location " ++ toString location)

end FailureView

namespace Parser

variable {ι α : Type}

/-- What a failure becomes for the caller: it is rendered, then located, then recorded. -/
def reportFailure (view : FailureView ι) (input : ι) (location : Int) :
    Run (ParseFailed ι) := do
  let rendered ← Run.ofExcept (view.render input location)
  let span ← match view.locate with
    | some locate => some <$> Run.ofExcept (locate input location)
    | none => pure none
  modify fun s => s.record (.parseFailed location rendered)
  pure
    { report := .ofDiagnostic (.parseFailed rendered span)
      input := some input
      location := location }

/-- Run a parser once: its value, or the report of its failure. -/
def parse (view : FailureView ι) (p : Parser ι α) (i : ι) :
    Run (Except (ParseFailed ι) α) := do
  match ← p i with
  | .success _ a => pure (.ok a)
  | .failure j l => Except.error <$> reportFailure view j l

end Parser
end Descent
