import Descent.Text.Slice
import Descent.Input

/-!
# Cursors

A cursor is a text and a position in it, and it is the input that text is read from.
Moving it shares the text.  The position is any integer: most cursors stand inside their
text or at its end, but a caller may place one past the end, where nothing is left to
read, or before the start, where positions count from the end of the text.

Lines are counted from one and end at a line feed; columns are counted from one.
-/

namespace Descent

/-- A position in a text. -/
structure Cursor where
  source : Text
  pos : Int := 0

namespace Cursor

/-- Positions are compared first, and a shared text is recognised as such. -/
instance : DecidableEq Cursor := fun a b =>
  if hp : a.pos = b.pos then
    match withPtrEqDecEq a.source b.source (fun _ => inferInstance) with
    | isTrue hs => isTrue (by cases a; cases b; simp_all)
    | isFalse hs => isFalse (fun h => hs (h ▸ rfl))
  else isFalse (fun h => hp (h ▸ rfl))

/-- Why no character could be read. -/
inductive AccessError where
  /-- The cursor stands at the end of its text or past it. -/
  | endOfText (pos : Int)
  /-- The position lies before the start of the text. -/
  | beforeStart
  deriving DecidableEq

/-- The text of an access error. -/
def AccessError.message : AccessError → String
  | .endOfText pos => "Unexpected EOF at position " ++ toString pos
  | .beforeStart => Text.outOfRange

variable (c : Cursor)

/-- Nothing is left to read. -/
def isEof : Bool := c.source.size ≤ c.pos

/-- How many characters are left. -/
def length : Nat := (c.source.size - c.pos).toNat

/-- The text that is left. -/
def rest : Text := c.source.slice c.pos c.source.size

/-- The character at the cursor. -/
def current : Except AccessError Char :=
  if c.isEof then .error (.endOfText c.pos)
  else match c.source.at? c.pos with
    | some ch => .ok ch
    | none => .error .beforeStart

/-- The character `offset` places on, or nothing beyond the end of the text. -/
def peek (offset : Int := 0) : Except AccessError (Option Char) :=
  if c.source.size ≤ c.pos + offset then .ok none
  else match c.source.at? (c.pos + offset) with
    | some ch => .ok (some ch)
    | none => .error .beforeStart

/-- The cursor `count` places on, at the end of the text if that is nearer. -/
def advance (count : Int := 1) : Cursor :=
  { c with pos := min (c.pos + count) c.source.size }

/-- The text from the cursor to the bound `stop`. -/
def sliceTo (stop : Int) : Text := c.source.slice c.pos stop

@[simp] theorem source_advance (n : Int) : (c.advance n).source = c.source := rfl

@[simp] theorem pos_advance (n : Int) :
    (c.advance n).pos = min (c.pos + n) c.source.size := rfl

/-- The line and the column of the cursor.  The line is one more than the number of line
feeds before it; the column counts from the last of them, or from the start of the text
if there is none. -/
def lineColumn : Nat × Int :=
  let pos := min c.pos c.source.size
  let stop := Text.bound c.source.size pos
  ((c.source.extract 0 stop).count '\n' + 1,
    match c.source.lastBefore '\n' stop with
    | some newline => pos - newline
    | none => pos + 1)

/-- A cursor past the end of its text still counts as one step: moving it brings it back
to the end. -/
instance : Extent Cursor where
  extent c := if (c.source.size : Int) < c.pos then 1 else c.length

theorem extent_eq (c : Cursor) :
    Extent.extent c = if (c.source.size : Int) < c.pos then 1 else c.length := rfl

end Cursor
end Descent
