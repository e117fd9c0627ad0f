import Descent.Text.Cursor

/-!
# Lines and columns, step by step

A reader who goes through a text one character at a time knows the line and column of the
next character without looking back: a line feed moves to the first column of the next
line, and every other character one column on.  This is the meaning of the line and column
that a cursor computes by counting and searching.
-/

namespace Descent
namespace Text

/-- The line and column after one more character. -/
def stepPosition (position : Nat × Nat) (ch : Char) : Nat × Nat :=
  if ch = '\n' then (position.1 + 1, 1) else (position.1, position.2 + 1)

/-- The line and column after the given characters, from the start of a text. -/
def positionAfter (chars : List Char) : Nat × Nat := chars.foldl stepPosition (1, 1)

@[simp] theorem positionAfter_nil : positionAfter [] = (1, 1) := rfl

theorem positionAfter_concat (chars : List Char) (ch : Char) :
    positionAfter (chars ++ [ch]) = stepPosition (positionAfter chars) ch := by
  simp [positionAfter]

end Text
end Descent
