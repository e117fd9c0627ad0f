import Descent.Fault
import Descent.Limits
import Descent.Text.Cursor

/-!
# Showing where a failure lies

A failure points at one character of its text: the one under its cursor for location zero
or below, and for a positive location the one `location - 1` places further on, but never
one before the cursor or past the end.  That place is the mark.

A rendered failure is one line.  It starts with the line and column of the mark, and goes
on with a window of the text: some characters before the mark, the marked one in brackets,
and some after it.  Where the window leaves characters out it has dots, and at the end of
the text the brackets hold a sign for it.  Line feeds, carriage returns and tabs of the
window are shown escaped.
-/

namespace Descent
namespace Render

/-- The position that a failure at `location` on the cursor `c` points at. -/
def mark (c : Cursor) (location : Int) : Int :=
  let offset := if 0 < location then c.pos + location - 1 else c.pos
  min (max offset c.pos) c.source.size

/-- How a character of the window is shown. -/
def escapeChar : Char → List Char
  | '\n' => ['\\', 'n']
  | '\r' => ['\\', 'r']
  | '\t' => ['\\', 't']
  | ch => [ch]

/-- A line feed, a carriage return and a tab are shown as a backslash and a letter, and every
other character as itself. -/
theorem escapeChar_eq (ch : Char) :
    escapeChar ch = if ch = '\n' then ['\\', 'n'] else if ch = '\r' then ['\\', 'r']
      else if ch = '\t' then ['\\', 't'] else [ch] := by
  unfold escapeChar
  split <;> simp_all

/-- How a piece of the window is shown. -/
def escape (t : Text) : String := String.ofList (t.toList.flatMap escapeChar)

/-- What stands in brackets for the end of the text. -/
def endSign : String := "<EOF>"

/-- What stands for characters that the window leaves out. -/
def dots : String := "..."

/-- The window around the mark `m`. -/
def window (source : Text) (m : Int) : Except Fault String :=
  let size : Int := source.size
  let start := max (m - Limits.contextWidth) 0
  let stop := min (m + 1 + Limits.contextWidth) size
  let before := (if 0 < start then dots else "") ++ escape (source.slice start m)
  let after := escape (source.slice (m + 1) stop) ++ (if stop < size then dots else "")
  if m < size then
    match source.at? m with
    | some ch => .ok (before ++ "[" ++ escape #[ch] ++ "]" ++ after)
    | none => .error .beforeStart
  else .ok (before ++ "[" ++ endSign ++ "]" ++ after)

/-- One line that shows where a failure lies. -/
def render (c : Cursor) (location : Int) : Except Fault String :=
  let m := mark c location
  let position := Cursor.lineColumn { source := c.source, pos := m }
  match window c.source m with
  | .ok shown =>
    .ok (toString position.1 ++ ":" ++ toString position.2 ++ ": " ++ shown)
  | .error f => .error f

/-- The span of the character that a failure points at; it is empty at the end. -/
def locate (c : Cursor) (location : Int) : Except Span.Error Span :=
  let m := mark c location
  let position := Cursor.lineColumn { source := c.source, pos := m }
  Span.ofInts m (min (m + 1) c.source.size) position.1 position.2

end Render
end Descent
