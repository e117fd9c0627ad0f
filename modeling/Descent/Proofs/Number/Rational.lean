import Descent.Proofs.Number.Positional
import Mathlib.Algebra.Order.Field.Power
import Mathlib.Algebra.Order.Ring.Abs
import Mathlib.Data.Rat.Cast.Order
import Mathlib.Tactic.Positivity

/-!
# The number that a decimal stands for

A decimal stands for a rational number.  Two decimals are compared by their normal forms, in
which the coefficient has no trailing zero, and zero has neither a sign nor an exponent.
Taking the normal form does not change the number, and no two normal forms stand for the same
number; so the comparison is one of numbers (`Decimal.sameValue_iff_toRat_eq`), however far
the exponents are apart.
-/

namespace Descent
namespace Decimal

variable {a b d : Decimal}

/-- The number that a decimal stands for. -/
def toRat (d : Decimal) : ℚ := (if d.negative then -1 else 1) * (d.coefficient * 10 ^ d.exponent)

/-- Digits before and after a point stand for a whole number and a fraction. -/
theorem toRat_ofDigits (negative : Bool) (whole fraction : List Char) :
    (ofDigits negative whole fraction).toRat = (if negative then -1 else 1) *
      (Numeral.value whole + Numeral.value fraction / 10 ^ fraction.length) := by
  have hne : (10 : ℚ) ^ fraction.length ≠ 0 := by positivity
  have hplaces : (Numeral.placeValue fraction.length : ℚ) = 10 ^ fraction.length := by
    rw [Numeral.placeValue]
    exact Nat.cast_pow 10 fraction.length
  rw [toRat, ofDigits, Numeral.value_append, zpow_neg, zpow_natCast]
  rw [Nat.cast_add, Nat.cast_mul, hplaces, ← div_eq_mul_inv, add_div, mul_div_cancel_right₀ _ hne]

/-! ## Taking the normal form -/

/-- What is stripped off a number are all of its trailing zeros. -/
theorem stripZeros_spec (n : Nat) :
    (stripZeros n).1 * 10 ^ (stripZeros n).2 = n ∧ (n ≠ 0 → (stripZeros n).1 % 10 ≠ 0) := by
  induction n using Nat.strongRecOn with
  | ind n ih =>
    rw [stripZeros]
    by_cases h : n ≠ 0 ∧ n % 10 = 0
    · obtain ⟨hmul, hmod⟩ := ih (n / 10) (by omega)
      rw [dif_pos h, stripZeros_eq]
      refine ⟨?_, fun _ => hmod (by omega)⟩
      show _ * 10 ^ (_ + 1) = n
      rw [Nat.pow_succ, ← Nat.mul_assoc, hmul]
      omega
    · rw [dif_neg h]
      refine ⟨Nat.mul_one n, fun hn hmod => h ⟨hn, hmod⟩⟩

theorem toRat_normalize (d : Decimal) : d.normalize.toRat = d.toRat := by
  unfold normalize
  split
  · next h => simp [toRat, h]
  · obtain ⟨hmul, -⟩ := stripZeros_spec d.coefficient
    have hcast : (d.coefficient : ℚ)
        = (stripZeros d.coefficient).1 * 10 ^ (stripZeros d.coefficient).2 := by
      exact_mod_cast hmul.symm
    simp only [toRat]
    rw [hcast, zpow_add₀ (by norm_num), zpow_natCast, mul_right_comm, mul_assoc]

/-- A normal form has no trailing zero, and no sign and exponent if it is zero. -/
def IsNormal (d : Decimal) : Prop :=
  d = { coefficient := 0 } ∨ d.coefficient % 10 ≠ 0

theorem isNormal_normalize (d : Decimal) : d.normalize.IsNormal := by
  unfold normalize
  split
  · exact .inl rfl
  · next h => exact .inr ((stripZeros_spec d.coefficient).2 h)

theorem IsNormal.mod_ten_ne_zero (h : d.IsNormal) (hzero : d.coefficient ≠ 0) :
    d.coefficient % 10 ≠ 0 := by
  refine h.resolve_left ?_
  rintro rfl
  exact hzero rfl

/-! ## Normal forms of the same number -/

theorem abs_toRat (d : Decimal) : |d.toRat| = d.coefficient * 10 ^ d.exponent := by
  have hpos : (0 : ℚ) ≤ d.coefficient * 10 ^ d.exponent := by positivity
  unfold toRat
  split
  · rw [neg_one_mul, abs_neg, abs_of_nonneg hpos]
  · rw [one_mul, abs_of_nonneg hpos]

theorem toRat_eq_zero_iff : d.toRat = 0 ↔ d.coefficient = 0 := by
  rw [← abs_eq_zero, abs_toRat, mul_eq_zero, Nat.cast_eq_zero]
  have hne : (10 : ℚ) ^ d.exponent ≠ 0 := by positivity
  exact ⟨fun h => h.resolve_right hne, Or.inl⟩

/-- The sign of a decimal counts unless it is zero. -/
theorem toRat_neg_iff (h : d.coefficient ≠ 0) : d.toRat < 0 ↔ d.negative = true := by
  have hcoefficient : (0 : ℚ) < d.coefficient := by exact_mod_cast Nat.pos_of_ne_zero h
  have hpos : (0 : ℚ) < d.coefficient * 10 ^ d.exponent := by positivity
  unfold toRat
  cases d.negative with
  | true => simpa using hpos
  | false => simpa using hpos.le

/-- Of two decimals of the same size, the one with the lower exponent has trailing zeros. -/
theorem mod_ten_of_exponent_lt (h : |a.toRat| = |b.toRat|) (hlt : a.exponent < b.exponent) :
    a.coefficient % 10 = 0 := by
  obtain ⟨k, hk⟩ : ∃ k : Nat, b.exponent = a.exponent + (k + 1 : Nat) :=
    ⟨(b.exponent - a.exponent - 1).toNat, by omega⟩
  rw [abs_toRat, abs_toRat, hk, zpow_add₀ (by norm_num), zpow_natCast, ← mul_assoc,
    mul_right_comm] at h
  have hcast := mul_right_cancel₀ (by positivity) h
  have heq : a.coefficient = b.coefficient * 10 ^ (k + 1) := by exact_mod_cast hcast
  rw [heq, Nat.pow_succ, ← Nat.mul_assoc, Nat.mul_mod_left]

theorem IsNormal.eq_of_toRat_eq (ha : a.IsNormal) (hb : b.IsNormal) (h : a.toRat = b.toRat) :
    a = b := by
  by_cases hzero : a.coefficient = 0
  · have hzero' : b.coefficient = 0 := by
      rw [← toRat_eq_zero_iff, ← h, toRat_eq_zero_iff]
      exact hzero
    rw [ha.resolve_right fun hmod => hmod (by rw [hzero]),
      hb.resolve_right fun hmod => hmod (by rw [hzero'])]
  · have hzero' : b.coefficient ≠ 0 := by
      rw [ne_eq, ← toRat_eq_zero_iff, ← h, toRat_eq_zero_iff]
      exact hzero
    have habs : |a.toRat| = |b.toRat| := congrArg _ h
    have hexponent : a.exponent = b.exponent := by
      refine le_antisymm (not_lt.mp fun hlt => ?_) (not_lt.mp fun hlt => ?_)
      · exact hb.mod_ten_ne_zero hzero' (mod_ten_of_exponent_lt habs.symm hlt)
      · exact ha.mod_ten_ne_zero hzero (mod_ten_of_exponent_lt habs hlt)
    have hcoefficient : a.coefficient = b.coefficient := by
      rw [abs_toRat, abs_toRat, hexponent] at habs
      exact_mod_cast mul_right_cancel₀ (by positivity) habs
    have hsign : a.negative = b.negative := by
      rw [Bool.eq_iff_iff, ← toRat_neg_iff hzero, h, toRat_neg_iff hzero']
    obtain ⟨negative, coefficient, exponent⟩ := a
    obtain ⟨negative', coefficient', exponent'⟩ := b
    obtain rfl : negative = negative' := hsign
    obtain rfl : coefficient = coefficient' := hcoefficient
    obtain rfl : exponent = exponent' := hexponent
    rfl

/-- **Decimals are compared by the numbers that they stand for.** -/
theorem sameValue_iff_toRat_eq : a.sameValue b = true ↔ a.toRat = b.toRat := by
  rw [sameValue_iff]
  constructor
  · intro h
    rw [← toRat_normalize a, h, toRat_normalize]
  · intro h
    refine (isNormal_normalize a).eq_of_toRat_eq (isNormal_normalize b) ?_
    rw [toRat_normalize, toRat_normalize, h]

end Decimal
end Descent
