import Descent.Text.Printable

/-!
# Quoted texts

A text is quoted by putting it between quotes and escaping what would not read back.  The
quotes are single ones, unless the text holds a single quote and no double quote.  The
quote in use and the backslash are escaped by a backslash, line feed, carriage return and
tab by their letters, and every other unprintable character by the shortest of the forms
with two, four or eight hexadecimal digits.  Everything else stands for itself.
-/

namespace Descent
namespace Quoted

/-- A hexadecimal digit. -/
def hexDigit (n : Nat) : Char :=
  if n < 10 then Char.ofNat ('0'.toNat + n) else Char.ofNat ('a'.toNat + (n - 10))

/-- The last `width` hexadecimal digits of a number. -/
def hex : Nat → Nat → List Char
  | 0, _ => []
  | width + 1, n => hex width (n / 16) ++ [hexDigit (n % 16)]

/-- The quote that surrounds a text. -/
def quoteFor (chars : List Char) : Char :=
  if chars.contains '\'' && !chars.contains '"' then '"' else '\''

variable [Printable.Database]

/-- How one character is written between the quotes `q`. -/
def escape (q ch : Char) : List Char :=
  if ch = q || ch = '\\' then ['\\', ch]
  else if ch = '\n' then ['\\', 'n']
  else if ch = '\r' then ['\\', 'r']
  else if ch = '\t' then ['\\', 't']
  else if Printable.isPrintable ch then [ch]
  else if ch.toNat < 0x100 then '\\' :: 'x' :: hex 2 ch.toNat
  else if ch.toNat < 0x10000 then '\\' :: 'u' :: hex 4 ch.toNat
  else '\\' :: 'U' :: hex 8 ch.toNat

/-- A text between quotes. -/
def quote (s : String) : String :=
  let q := quoteFor s.toList
  String.ofList (q :: s.toList.flatMap (escape q) ++ [q])

end Quoted
end Descent
