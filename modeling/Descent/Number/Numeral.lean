/-!
# Numerals

A numeral is a string of the digits `0` to `9`, read in base ten.  Leading zeros are
allowed and change nothing.

Where a numeral is read as an index, its length is limited, since reading takes time that
grows faster than the length; a longer one is refused, whatever its leading digits are.
-/

namespace Descent
namespace Numeral

/-- The value of a digit. -/
def digit (ch : Char) : Nat := ch.toNat - '0'.toNat

/-- The number that a string of digits denotes, with `acc` for the digits before it. -/
def valueFrom (acc : Nat) (digits : List Char) : Nat :=
  digits.foldl (fun n ch => 10 * n + digit ch) acc

/-- The number that a string of digits denotes. -/
def value (digits : List Char) : Nat := valueFrom 0 digits

@[simp] theorem value_nil : value [] = 0 := rfl

@[simp] theorem valueFrom_nil (acc : Nat) : valueFrom acc [] = acc := rfl

@[simp] theorem valueFrom_cons (acc : Nat) (ch : Char) (digits : List Char) :
    valueFrom acc (ch :: digits) = valueFrom (10 * acc + digit ch) digits := by
  simp only [valueFrom, List.foldl_cons]

theorem valueFrom_append (acc : Nat) (a b : List Char) :
    valueFrom acc (a ++ b) = valueFrom (valueFrom acc a) b := by
  simp [valueFrom]

/-- The value of the digit one with `k` digits after it. -/
def placeValue (k : Nat) : Nat := Nat.pow 10 k

@[simp] theorem placeValue_zero : placeValue 0 = 1 := rfl

theorem placeValue_succ (k : Nat) : placeValue (k + 1) = 10 * placeValue k :=
  Nat.mul_comm (placeValue k) 10

theorem placeValue_pos (k : Nat) : 0 < placeValue k := Nat.pow_pos (by decide)

/-- Whether a string is a numeral: one digit or more, and nothing else. -/
def isNumeral (s : List Char) : Bool := !s.isEmpty && s.all Char.isDigit

/-- The longest numeral that is read as an index. -/
def maxDigits : Nat := 4300

/-- A numeral was refused because it has this many digits. -/
structure TooLong where
  digits : Nat
  deriving DecidableEq

/-- The text of a refusal. -/
def TooLong.message (e : TooLong) : String :=
  "Exceeds the limit (" ++ toString maxDigits
    ++ " digits) for integer string conversion: value has " ++ toString e.digits
    ++ " digits; use sys.set_int_max_str_digits() to increase the limit"

/-- The value of a numeral that is not too long. -/
def read (digits : List Char) : Except TooLong Nat :=
  if maxDigits < digits.length then .error ⟨digits.length⟩ else .ok (value digits)

end Numeral
end Descent
