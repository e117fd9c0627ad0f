import Descent.Number.Numeral

/-!
# Decimal numbers

A decimal is a sign, a coefficient and an exponent of ten, kept exactly as they were
written: `2.50` and `2.5` are different decimals with the same value, and so are `0` and
`-0`.  Nothing is ever rounded.

Two decimals have the same value when their coefficients without trailing zeros and the
exponents that go with them agree, and the signs too unless both are zero.  The comparison
never builds a power of ten, so huge exponents cost nothing.

There are two ways to write a decimal.  `toString` writes it in positional notation when
the exponent is at most zero and the first digit lies no lower than the sixth place, and
in scientific notation otherwise; `toPositional` always writes it in positional notation.
-/

namespace Descent

/-- The number `± coefficient · 10 ^ exponent`, with a sign even for zero. -/
structure Decimal where
  negative : Bool := false
  coefficient : Nat
  exponent : Int := 0
  deriving DecidableEq

namespace Decimal

/-- The decimal with the given digits before and after the point. -/
def ofDigits (negative : Bool) (whole fraction : List Char) : Decimal :=
  { negative := negative
    coefficient := Numeral.value (whole ++ fraction)
    exponent := -fraction.length }

/-- The decimal with the given digits before and after the point, if there are any. -/
def ofDigits? (negative : Bool) (whole fraction : List Char) : Option Decimal :=
  if whole.isEmpty && fraction.isEmpty then none
  else some (ofDigits negative whole fraction)

theorem ofDigits?_of_ne_nil {negative : Bool} {whole fraction : List Char}
    (h : whole ≠ []) :
    ofDigits? negative whole fraction = some (ofDigits negative whole fraction) := by
  simp [ofDigits?, h]

/-- The decimal of an integer. -/
def ofInt (n : Int) : Decimal := { negative := n < 0, coefficient := n.natAbs }

/-! ## Equal values -/

/-- A number without its trailing zeros, and how many there were on top of `zeros`. -/
def stripZeros (n : Nat) (zeros : Nat := 0) : Nat × Nat :=
  if h : n ≠ 0 ∧ n % 10 = 0 then stripZeros (n / 10) (zeros + 1) else (n, zeros)
termination_by n
decreasing_by omega

/-- The one decimal among those of the same value that has no trailing zeros, and for zero
the one without sign and exponent. -/
def normalize (d : Decimal) : Decimal :=
  if d.coefficient = 0 then { coefficient := 0 }
  else
    let stripped := stripZeros d.coefficient
    { negative := d.negative, coefficient := stripped.1
      exponent := d.exponent + stripped.2 }

/-- Whether two decimals have the same value. -/
def sameValue (a b : Decimal) : Bool := a.normalize = b.normalize

theorem sameValue_iff {a b : Decimal} :
    a.sameValue b = true ↔ a.normalize = b.normalize := by simp [sameValue]

/-! ## Writing -/

/-- The digits of a number. -/
def digitsOf (n : Nat) : List Char := Nat.toDigits 10 n

/-- The sign of a decimal, as it is written. -/
def sign (d : Decimal) : List Char := if d.negative then ['-'] else []

/-- Digits with a point before the last `places` of them, filled up with zeros so that at
least one digit stands before it; no point if there are no places. -/
def point (digits : List Char) (places : Nat) : List Char :=
  if places = 0 then digits
  else
    let filled := List.replicate (places + 1 - digits.length) '0' ++ digits
    filled.take (filled.length - places) ++ '.' :: filled.drop (filled.length - places)

/-- The digits of a coefficient in scientific notation with the exponent `e`. -/
def scientific (digits : List Char) (e : Int) : List Char :=
  let mantissa := match digits with
    | first :: second :: rest => first :: '.' :: second :: rest
    | short => short
  mantissa ++ 'E' :: (if e < 0 then '-' else '+') :: digitsOf e.natAbs

/-- The usual notation of a decimal. -/
protected def toString (d : Decimal) : String :=
  let digits := digitsOf d.coefficient
  let adjusted := d.exponent + digits.length - 1
  String.ofList (d.sign ++
    if d.exponent ≤ 0 ∧ -6 ≤ adjusted then point digits d.exponent.natAbs
    else scientific digits adjusted)

/-- The positional notation of a decimal: for a positive exponent the digits are filled up
with zeros at the end, unless the coefficient is zero. -/
def toPositional (d : Decimal) : List Char :=
  let digits := digitsOf d.coefficient
  d.sign ++
    if d.exponent ≤ 0 then point digits d.exponent.natAbs
    else if d.coefficient = 0 then ['0']
    else digits ++ List.replicate d.exponent.natAbs '0'

/-! ## Reading -/

/-- The exponent part of a notation: nothing, or the letter, a sign if there is one, and
digits. -/
def readExponent : List Char → Option Int
  | [] => some 0
  | letter :: rest =>
    if letter = 'e' ∨ letter = 'E' then
      match rest with
      | '-' :: digits =>
        if Numeral.isNumeral digits then some (-(Numeral.value digits : Int)) else none
      | '+' :: digits =>
        if Numeral.isNumeral digits then some (Numeral.value digits : Int) else none
      | digits =>
        if Numeral.isNumeral digits then some (Numeral.value digits : Int) else none
    else none

/-- A notation without its sign: digits with a point among them or at either end, and an
exponent part. -/
def readUnsigned (negative : Bool) (s : List Char) : Option Decimal :=
  let whole := s.takeWhile Char.isDigit
  let afterWhole := s.dropWhile Char.isDigit
  let pointed := match afterWhole with
    | '.' :: rest => (rest.takeWhile Char.isDigit, rest.dropWhile Char.isDigit)
    | rest => ([], rest)
  match ofDigits? negative whole pointed.1, readExponent pointed.2 with
  | some d, some e => some { d with exponent := d.exponent + e }
  | _, _ => none

/-- The decimal that a notation denotes, positional or scientific. -/
def ofString? (s : String) : Option Decimal :=
  match s.toList with
  | '-' :: rest => readUnsigned true rest
  | '+' :: rest => readUnsigned false rest
  | rest => readUnsigned false rest

end Decimal
end Descent
