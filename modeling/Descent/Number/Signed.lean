import Descent.Number.Numeral
import Descent.Text.Quoted

/-!
# Signed numerals

A signed numeral is a numeral with at most one minus sign before it.  The limit on the
length of a numeral is a limit on its digits; the sign does not count.

This is the function with which a grammar turns a text that it has read into an integer: one
that reads a count and then as many items applies it to the text of the count, before it
chooses the parser of the items (`Expr.flatMap`).  A refusal is a fault of that function.
-/

namespace Descent
namespace Numeral

/-- Why a text is not read as an integer. -/
inductive SignedError where
  /-- The text is not a signed numeral. -/
  | notNumeral (text : String)
  /-- The numeral has too many digits. -/
  | tooLong (error : TooLong)
  deriving DecidableEq

/-- The text of a refusal. -/
def SignedError.message [Printable.Database] : SignedError → String
  | .notNumeral text => "invalid literal for int() with base 10: " ++ Quoted.quote text
  | .tooLong error => error.message

/-- Whether a minus sign stands at the front, and what follows it. -/
def splitSign : List Char → Bool × List Char
  | '-' :: rest => (true, rest)
  | chars => (false, chars)

/-- The integer that a signed numeral denotes. -/
def readSigned (s : String) : Except SignedError Int :=
  let (negative, digits) := splitSign s.toList
  if isNumeral digits then
    match read digits with
    | .ok n => .ok (if negative then -n else n)
    | .error e => .error (.tooLong e)
  else .error (.notNumeral s)

end Numeral
end Descent
