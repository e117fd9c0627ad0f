/-!
# Grouped numbers

A long number is easier to read with its digits in groups of three.  Groups are counted
from the right and set apart by commas; the sign stays in front.
-/

namespace Descent
namespace Grouped

/-- Digits, last one first, with a comma after each group of three that is followed by
more. -/
def separate : List Char → List Char
  | a :: b :: c :: d :: rest => a :: b :: c :: ',' :: separate (d :: rest)
  | digits => digits

/-- A natural number with grouped digits. -/
def ofNat (n : Nat) : String :=
  String.ofList (separate (Nat.toDigits 10 n).reverse).reverse

/-- An integer with grouped digits. -/
def ofInt (n : Int) : String :=
  if n < 0 then "-" ++ ofNat n.natAbs else ofNat n.natAbs

end Grouped
end Descent
