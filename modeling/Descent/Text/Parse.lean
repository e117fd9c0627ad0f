import Descent.Parse
import Descent.Text.Render

/-!
# Parsing texts for a caller

Failures on a text are shown by the line that renders them and carry the span of the
marked character.
-/

namespace Descent
namespace Text

/-- Failures are rendered as text; they carry no span. -/
def rendered : FailureView Cursor where
  render := Render.render

/-- The span of the marked character, or the fault that there is none. -/
def locate (c : Cursor) (location : Int) : Except Fault Span :=
  match Render.locate c location with
  | .ok span => .ok span
  | .error e => .error (.invalidSpan e)

/-- Failures are rendered as text and located in it. -/
def located : FailureView Cursor where
  render := Render.render
  locate := some locate

/-- Run a parser at a cursor: its value, or a report with a rendered message and a span. -/
def parse {α : Type} (p : Parser Cursor α) (c : Cursor) :
    Run (Except (ParseFailed Cursor) α) :=
  Parser.parse located p c

end Text
end Descent
