import Descent.Number.Decimal

/-!
# Positional notation

Positional notation has no room for a positive exponent: `12E+3` is written `12000`.  What
it writes is the decimal with such an exponent multiplied out (`Decimal.expand`), which has
the same value.  A decimal whose exponent is not positive is written as it is, with its
sign, all of its digits and its exponent.
-/

namespace Descent

/-! ## The numbers that digits denote -/

namespace Numeral

theorem value_eq_ofDigitChars (l : List Char) : value l = Nat.ofDigitChars 10 l 0 := by
  rw [Nat.ofDigitChars_eq_foldl]
  rfl

/-- Digits behind a number move it up by as many places. -/
theorem valueFrom_eq (n : Nat) (b : List Char) :
    valueFrom n b = n * placeValue b.length + value b := by
  induction b generalizing n with
  | nil => simp [value]
  | cons ch b ih =>
    rw [value, valueFrom_cons, valueFrom_cons, ih, ih (10 * 0 + digit ch), List.length_cons,
      placeValue_succ, Nat.mul_zero, Nat.zero_add, Nat.add_mul, Nat.mul_comm 10 n,
      Nat.mul_assoc, Nat.add_assoc]

/-- The number that two stretches of digits denote together. -/
theorem value_append (a b : List Char) :
    value (a ++ b) = value a * placeValue b.length + value b := by
  rw [value, valueFrom_append, valueFrom_eq]
  rfl

/-- The digits of a number denote it. -/
theorem value_digitsOf (n : Nat) : value (Decimal.digitsOf n) = n := by
  rw [value_eq_ofDigitChars]
  exact Nat.ofDigitChars_ten_toDigits

/-- Leading zeros do not count. -/
theorem value_replicate_append (k : Nat) (l : List Char) :
    value (List.replicate k '0' ++ l) = value l := by
  rw [value_eq_ofDigitChars, value_eq_ofDigitChars, Nat.ofDigitChars_append,
    Nat.ofDigitChars_replicate_zero, Nat.mul_zero]

/-- Each trailing zero counts ten times. -/
theorem value_append_replicate (l : List Char) (k : Nat) :
    value (l ++ List.replicate k '0') = value l * placeValue k := by
  rw [value_eq_ofDigitChars, value_eq_ofDigitChars, Nat.ofDigitChars_append,
    Nat.ofDigitChars_replicate_zero, Nat.mul_comm]
  rfl

/-! ## Numerals -/

open Decimal

theorem digitsOf_digit {ch : Char} (h : ch.isDigit = true) :
    digit ch < 10 ∧ digitsOf (digit ch) = [ch] := by
  obtain ⟨hlow, hhigh⟩ : 48 ≤ ch.toNat ∧ ch.toNat ≤ 57 := Char.isDigit_iff_toNat.mp h
  have hlt : digit ch < 10 := by
    show ch.toNat - 48 < 10
    omega
  have hchar : (digit ch).digitChar = ch := by
    rw [← Char.toNat_inj, Nat.toNat_digitChar_of_lt_ten hlt]
    show 48 + (ch.toNat - 48) = ch.toNat
    omega
  exact ⟨hlt, by rw [digitsOf, Nat.toDigits_of_lt_base hlt, hchar]⟩

/-- Digits that follow those of a number are the last digits of the number they make. -/
theorem digitsOf_valueFrom {n : Nat} (hn : 0 < n) {s : List Char}
    (h : ∀ ch ∈ s, ch.isDigit = true) : digitsOf (valueFrom n s) = digitsOf n ++ s := by
  induction s generalizing n with
  | nil => simp
  | cons ch s ih =>
    obtain ⟨hch, hs⟩ := List.forall_mem_cons.mp h
    obtain ⟨hlt, hdigit⟩ := digitsOf_digit hch
    have hsnoc : digitsOf n ++ digitsOf (digit ch) = digitsOf (10 * n + digit ch) :=
      Nat.toDigits_append_toDigits (by decide) hn hlt
    rw [valueFrom_cons, ih (by omega) hs, ← hsnoc, hdigit, List.append_assoc,
      List.singleton_append]

/-- **A numeral is zeros, if any, and the digits of the number that it denotes.** -/
theorem exists_zeros_append {s : List Char} (h : isNumeral s = true) :
    ∃ zeros, s = List.replicate zeros '0' ++ digitsOf (value s) := by
  induction s with
  | nil => cases h
  | cons ch s ih =>
    obtain ⟨hch, hs⟩ : ch.isDigit = true ∧ ∀ c ∈ s, c.isDigit = true := by
      simpa [isNumeral] using h
    by_cases hzero : ch = '0'
    · subst hzero
      have hvalue : value ('0' :: s) = value s := value_replicate_append 1 s
      by_cases hnil : s = []
      · subst hnil
        exact ⟨0, rfl⟩
      · obtain ⟨zeros, hzeros⟩ := ih (by simpa [isNumeral, hnil] using hs)
        refine ⟨zeros + 1, ?_⟩
        rw [hvalue, List.replicate_succ, List.cons_append, ← hzeros]
    · obtain ⟨-, hdigit⟩ := digitsOf_digit hch
      have hpos : 0 < digit ch := by
        refine Nat.pos_of_ne_zero fun h => hzero ?_
        rw [h] at hdigit
        exact (List.cons.inj hdigit).1.symm
      refine ⟨0, ?_⟩
      rw [value, valueFrom_cons, Nat.mul_zero, Nat.zero_add, digitsOf_valueFrom hpos hs, hdigit]
      rfl

theorem value_of_read {s : List Char} {n : Nat} (h : read s = .ok n) : value s = n := by
  unfold read at h
  split at h
  · cases h
  · exact Except.ok.inj h

theorem isNumeral_digitsOf (n : Nat) : isNumeral (digitsOf n) = true := by
  have hne : digitsOf n ≠ [] := Nat.toDigits_ne_nil
  rw [isNumeral, Bool.and_eq_true, List.all_eq_true]
  exact ⟨by simp [hne], fun ch h => Nat.isDigit_of_mem_toDigits (by decide) (by decide) h⟩

end Numeral

namespace Decimal

/-! ## Multiplying a positive exponent out -/

/-- The decimal with a positive exponent multiplied out. -/
def expand (d : Decimal) : Decimal :=
  if d.exponent ≤ 0 then d
  else
    { negative := d.negative
      coefficient := d.coefficient * Numeral.placeValue d.exponent.natAbs }

theorem expand_of_le {d : Decimal} (h : d.exponent ≤ 0) : d.expand = d := if_pos h

theorem expand_of_lt {d : Decimal} (h : 0 < d.exponent) :
    d.expand =
      { negative := d.negative
        coefficient := d.coefficient * Numeral.placeValue d.exponent.natAbs } :=
  if_neg (by omega)

/-- The count of trailing zeros starts from `zeros`. -/
theorem stripZeros_eq (n zeros : Nat) :
    stripZeros n zeros = ((stripZeros n).1, (stripZeros n).2 + zeros) := by
  induction n using Nat.strongRecOn generalizing zeros with
  | ind n ih =>
    by_cases h : n ≠ 0 ∧ n % 10 = 0
    · have hlt : n / 10 < n := by omega
      rw [stripZeros, dif_pos h, ih _ hlt, stripZeros.eq_def n 0, dif_pos h, ih _ hlt 1]
      simp only
      rw [Nat.add_assoc, Nat.add_comm 1 zeros]
    · rw [stripZeros, dif_neg h, stripZeros.eq_def n 0, dif_neg h]
      simp only
      rw [Nat.zero_add]

theorem mul_placeValue_ne_zero {n : Nat} (hn : n ≠ 0) (k : Nat) :
    n * Numeral.placeValue k ≠ 0 :=
  Nat.mul_ne_zero hn (Nat.ne_of_gt (Numeral.placeValue_pos k))

theorem stripZeros_mul_placeValue {n : Nat} (hn : n ≠ 0) (k : Nat) :
    stripZeros (n * Numeral.placeValue k) = ((stripZeros n).1, (stripZeros n).2 + k) := by
  induction k with
  | zero => rw [Numeral.placeValue_zero, Nat.mul_one, Nat.add_zero]
  | succ k ih =>
    have hten : n * Numeral.placeValue (k + 1) = 10 * (n * Numeral.placeValue k) := by
      rw [Numeral.placeValue_succ, Nat.mul_left_comm]
    have hne := mul_placeValue_ne_zero hn k
    rw [hten, stripZeros, dif_pos (by omega), Nat.mul_div_cancel_left _ (by decide),
      stripZeros_eq, ih]
    rfl

/-- **Multiplying an exponent out does not change the value.** -/
theorem sameValue_expand (d : Decimal) : d.expand.sameValue d = true := by
  rw [sameValue_iff]
  rcases Int.lt_or_le 0 d.exponent with h | h
  · rw [expand_of_lt h]
    by_cases hc : d.coefficient = 0
    · simp [normalize, hc]
    · have hne := mul_placeValue_ne_zero hc d.exponent.natAbs
      simp only [normalize, if_neg hc, if_neg hne, stripZeros_mul_placeValue hc, mk.injEq,
        true_and]
      omega
  · rw [expand_of_le h]

/-! ## Writing -/

/-- All characters are digits. -/
def AreDigits (w : List Char) : Prop := ∀ ch ∈ w, '0' ≤ ch ∧ ch ≤ '9'

theorem AreDigits.append {a b : List Char} (ha : AreDigits a) (hb : AreDigits b) :
    AreDigits (a ++ b) := by
  intro ch hch
  rcases List.mem_append.mp hch with h | h
  · exact ha ch h
  · exact hb ch h

theorem areDigits_digitsOf (n : Nat) : AreDigits (digitsOf n) := by
  intro ch hch
  have h := Nat.isDigit_of_mem_toDigits (by decide) (by decide) hch
  simpa [Char.isDigit, Char.le_def] using h

theorem areDigits_replicate (k : Nat) : AreDigits (List.replicate k '0') := by
  intro ch hch
  rw [List.eq_of_mem_replicate hch]
  decide

/-- Digits denote the decimal whose coefficient and places they have. -/
theorem ofDigits_eq {d : Decimal} {whole fraction : List Char}
    (hvalue : Numeral.value (whole ++ fraction) = d.coefficient)
    (hplaces : d.exponent = -fraction.length) : ofDigits d.negative whole fraction = d := by
  unfold ofDigits
  rw [hvalue, ← hplaces]

/-- A point stands between digits: those after it are as many as there are places, and
without the point the digits are those that were given with zeros in front. -/
theorem exists_point (digits : List Char) {places : Nat} (h : places ≠ 0) :
    ∃ k whole fraction, point digits places = whole ++ '.' :: fraction ∧ whole ≠ [] ∧
      fraction.length = places ∧ whole ++ fraction = List.replicate k '0' ++ digits := by
  unfold point
  rw [if_neg h]
  simp only
  have hlen : places + 1 ≤
      (List.replicate (places + 1 - digits.length) '0' ++ digits).length := by
    rw [List.length_append, List.length_replicate]
    omega
  refine ⟨_, _, _, rfl, ?_, ?_, List.take_append_drop _ _⟩
  · rw [← List.length_pos_iff, List.length_take]
    omega
  · rw [List.length_drop]
    omega

/-- **What positional notation writes**: a sign and digits, and after a point more digits if
there are any.  Together they denote the decimal with its exponent multiplied out. -/
theorem exists_toPositional (d : Decimal) :
    ∃ whole fraction,
      d.toPositional
        = d.sign ++ (whole ++ if fraction = [] then [] else '.' :: fraction) ∧
      whole ≠ [] ∧ AreDigits whole ∧ AreDigits fraction ∧
      ofDigits d.negative whole fraction = d.expand := by
  unfold toPositional
  simp only
  rcases Int.lt_or_le 0 d.exponent with h | h
  · rw [if_neg (by omega), expand_of_lt h]
    by_cases hc : d.coefficient = 0
    · refine ⟨['0'], [], by simp [hc], by simp, areDigits_replicate 1, areDigits_replicate 0, ?_⟩
      simp only [ofDigits, hc, Nat.zero_mul]
      rfl
    · refine ⟨digitsOf d.coefficient ++ List.replicate d.exponent.natAbs '0', [], ?_, ?_,
        (areDigits_digitsOf _).append (areDigits_replicate _), areDigits_replicate 0, ?_⟩
      · rw [if_neg hc]
        simp
      · simp [digitsOf]
      · unfold ofDigits
        rw [List.append_nil, Numeral.value_append_replicate, Numeral.value_digitsOf]
        rfl
  · rw [if_pos h, expand_of_le h]
    by_cases hp : d.exponent.natAbs = 0
    · refine ⟨digitsOf d.coefficient, [], ?_, ?_, areDigits_digitsOf _, areDigits_replicate 0,
        ofDigits_eq ?_ ?_⟩
      · simp [point, hp]
      · simp [digitsOf]
      · rw [List.append_nil, Numeral.value_digitsOf]
      · rw [Int.natAbs_eq_zero.mp hp]
        rfl
    · obtain ⟨k, whole, fraction, hpoint, hne, hlen, hdigits⟩ :=
        exists_point (digitsOf d.coefficient) hp
      have hall : AreDigits (whole ++ fraction) := by
        rw [hdigits]
        exact (areDigits_replicate k).append (areDigits_digitsOf d.coefficient)
      have hfraction : fraction ≠ [] := by
        rintro rfl
        exact hp hlen.symm
      refine ⟨whole, fraction, ?_, hne, fun ch hch => hall ch (List.mem_append_left _ hch),
        fun ch hch => hall ch (List.mem_append_right _ hch), ofDigits_eq ?_ ?_⟩
      · rw [hpoint, if_neg hfraction]
      · rw [hdigits, Numeral.value_replicate_append, Numeral.value_digitsOf]
      · omega

/-! ## Reading -/

theorem AreDigits.isDigit {w : List Char} (hw : AreDigits w) {ch : Char} (h : ch ∈ w) :
    ch.isDigit = true := by
  simpa [Char.isDigit, Char.le_def] using hw ch h

theorem AreDigits.takeWhile_append {w : List Char} (hw : AreDigits w) (r : List Char) :
    (w ++ r).takeWhile Char.isDigit = w ++ r.takeWhile Char.isDigit :=
  List.takeWhile_append_of_pos fun _ h => hw.isDigit h

theorem AreDigits.dropWhile_append {w : List Char} (hw : AreDigits w) (r : List Char) :
    (w ++ r).dropWhile Char.isDigit = r.dropWhile Char.isDigit :=
  List.dropWhile_append_of_pos fun _ h => hw.isDigit h

theorem AreDigits.takeWhile_eq {w : List Char} (hw : AreDigits w) :
    w.takeWhile Char.isDigit = w := by
  simpa using hw.takeWhile_append []

theorem AreDigits.dropWhile_eq {w : List Char} (hw : AreDigits w) :
    w.dropWhile Char.isDigit = [] := by
  simpa using hw.dropWhile_append []

variable {negative : Bool} {whole fraction : List Char}

/-- Digits are read as the decimal that they denote. -/
theorem readUnsigned_digits (hne : whole ≠ []) (hw : AreDigits whole) :
    readUnsigned negative whole = some (ofDigits negative whole []) := by
  rw [readUnsigned, hw.takeWhile_eq, hw.dropWhile_eq]
  simp [ofDigits?_of_ne_nil hne, readExponent, ofDigits]

/-- And so are digits with a point and more digits behind them. -/
theorem readUnsigned_point (hne : whole ≠ []) (hw : AreDigits whole)
    (hf : AreDigits fraction) :
    readUnsigned negative (whole ++ '.' :: fraction)
      = some (ofDigits negative whole fraction) := by
  rw [readUnsigned, hw.takeWhile_append, hw.dropWhile_append]
  simp [hf.takeWhile_eq, hf.dropWhile_eq, ofDigits?_of_ne_nil hne, readExponent, ofDigits]

/-- What begins with a digit has no sign. -/
theorem ofString?_unsigned (hne : whole ≠ []) (hw : AreDigits whole) (rest : List Char) :
    ofString? (String.ofList (whole ++ rest)) = readUnsigned false (whole ++ rest) := by
  obtain ⟨ch, whole, rfl⟩ := List.exists_cons_of_ne_nil hne
  have hdigit := hw ch (List.mem_cons_self ..)
  rw [ofString?, String.toList_ofList, List.cons_append]
  split
  · next h =>
    cases h
    exact absurd hdigit (by decide)
  · next h =>
    cases h
    exact absurd hdigit (by decide)
  · rfl

end Decimal
end Descent
