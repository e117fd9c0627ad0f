import Descent.Grammar.Eval
import Descent.Limits
import Descent.Text.CharClass
import Descent.Text.Cursor

/-!
# The primitives of text

Three primitives look at characters, and everything else is composed from them: a run of
characters of a class, a literal, and the end of the text.

A run takes as many characters as the class admits and fails at location zero if it is
empty, unless it may be.  A literal that is not there fails one past the part of it that
is, so its location is never zero.  The end fails at location zero.
-/

namespace Descent
namespace Text

/-- Where the run of characters of `cls` that starts at `i` stops, looking at no more than
`steps` characters; nothing if it starts before the text. -/
def runEnd (t : Text) (cls : CharClass) : Nat → Int → Option Int
  | 0, i => some i
  | steps + 1, i =>
    match at? t i with
    | none => none
    | some ch => if cls.admits ch then runEnd t cls steps (i + 1) else some i

end Text

/-- What can be read from a text without composing parsers. -/
inductive Primitive : Type → Type where
  /-- The longest run of characters of a class; `allowEmpty` says whether it may be empty. -/
  | run (cls : CharClass) (allowEmpty : Bool) : Primitive Text
  /-- Exactly these characters. -/
  | literal (chars : Text) : Primitive Text
  /-- The end of the text. -/
  | eof : Primitive Unit

namespace Primitive

/-- A run of characters of a class, which must hold one at least. -/
def readRun (cls : CharClass) (allowEmpty : Bool) (c : Cursor) :
    Except Fault (Outcome Cursor Text) :=
  match c.source.runEnd cls (c.source.size - c.pos).toNat c.pos with
  | none => .error .beforeStart
  | some stop =>
    if stop = c.pos && !allowEmpty then .ok (.failure c 0)
    else .ok (.success (c.advance (stop - c.pos)) (c.sliceTo stop))

/-- Exactly the given characters, or a failure one past those that are there. -/
def readLiteral (chars : Text) (c : Cursor) : Outcome Cursor Text :=
  if c.source.continuesWith chars c.pos then
    .success (c.advance chars.size) chars
  else
    let ahead := c.sliceTo (c.pos + chars.size)
    .failure c (Text.commonPrefix chars.toList ahead.toList + 1)

/-- The end of the text, which takes nothing. -/
def readEof (c : Cursor) : Outcome Cursor Unit :=
  if c.isEof then .success c () else .failure c 0

/-- Read a primitive at a cursor. -/
def read {α : Type} : Primitive α → Cursor → Except Fault (Outcome Cursor α)
  | .run cls allowEmpty, c => readRun cls allowEmpty c
  | .literal chars, c => .ok (readLiteral chars c)
  | .eof, c => .ok (readEof c)

instance : Terminal Primitive Cursor where
  read t c := ([], t.read c)

end Primitive

/-! ## The primitives as expressions -/

namespace Expr

variable {ρ : Type} {τ : ρ → Type}

/-- One or more characters of a class. -/
def run (cls : CharClass) : Expr Primitive τ Text := .terminal (.run cls false)

/-- Any number of characters of a class.  Never fails. -/
def runOrEmpty (cls : CharClass) : Expr Primitive τ Text := .terminal (.run cls true)

/-- Exactly the characters of a string. -/
def literal (s : String) : Expr Primitive τ Text :=
  .terminal (.literal (Text.ofString s))

/-- One or more blanks, tabs and line feeds. -/
def whitespace : Expr Primitive τ Text := run (.anyOf Limits.whitespace)

/-- The end of the text. -/
def eof : Expr Primitive τ Unit := .terminal .eof

end Expr
end Descent
