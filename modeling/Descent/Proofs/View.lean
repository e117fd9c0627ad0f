import Descent.Proofs.Suffix

/-!
# A cursor as a view of what is left

A cursor answers by positions in its text, and each of its operations clamps in its own way: a
slice is cut at the end, a length is never negative, and a cursor that moves on stops at the end
and is brought back to it from beyond.  To a reader who knows only the characters that are left
none of this shows.  For every cursor that does not stand before the start of its text there is
one list, its remainder, that has all the answers (`Cursor.Shows`), and moving the cursor takes
characters off the front of this list (`Cursor.remainder_advance`).

So a cursor that is moved again and again shows at each moment what a reader has left who takes
as many characters off at each move (`Cursor.shows_foldl_advance`).
-/

namespace Descent
namespace Cursor

/-- What a cursor answers to each question is what a reader of the list answers. -/
structure Shows (c : Cursor) (l : List Char) : Prop where
  rest : c.rest.toList = l
  length : c.length = l.length
  isEof : c.isEof = true ↔ l = []
  peek : ∀ n : Nat, c.peek n = .ok l[n]?
  current : c.current = l.head?.elim (.error (.endOfText c.pos)) .ok
  sliceTo : ∀ n : Nat, (c.sliceTo (c.pos + n)).toList = l.take n

variable {c : Cursor}

/-! ## Questions -/

/-- A character that is looked ahead at is one of the remainder. -/
theorem peek_eq (hc : 0 ≤ c.pos) (n : Nat) : c.peek n = .ok c.remainder[n]? := by
  obtain ⟨source, pos⟩ := c
  obtain ⟨k, rfl⟩ := Int.eq_ofNat_of_zero_le hc
  rw [Cursor.peek, remainder, ← Int.natCast_add, Text.at?_natCast, List.getElem?_drop,
    Int.toNat_natCast, Array.getElem?_toList]
  split
  · next h => rw [Array.getElem?_eq_none (Int.ofNat_le.mp h)]
  · next h => rw [Array.getElem?_eq_getElem (Int.ofNat_lt.mp (Int.not_le.mp h))]

/-- The character at the cursor is the one that is looked ahead at by nothing, if any is left. -/
theorem current_eq (hc : 0 ≤ c.pos) :
    c.current = c.remainder.head?.elim (.error (.endOfText c.pos)) .ok := by
  have hpeek := peek_eq hc 0
  rw [Cursor.peek, Int.natCast_zero, Int.add_zero] at hpeek
  rw [Cursor.current]
  cases hl : c.remainder with
  | nil =>
    rw [if_pos ((remainder_eq_nil_iff hc).mp hl)]
    rfl
  | cons ch l =>
    have hmore : ¬ c.isEof = true := by simp [← remainder_eq_nil_iff hc, hl]
    have hlt : ¬ (c.source.size : Int) ≤ c.pos := by simpa [Cursor.isEof] using hmore
    rw [if_neg hlt, hl, List.getElem?_cons_zero] at hpeek
    rw [if_neg hmore]
    cases h : c.source.at? c.pos with
    | none =>
      rw [h] at hpeek
      cases hpeek
    | some ch' =>
      rw [h] at hpeek
      cases hpeek
      rfl

/-- A cursor shows its remainder. -/
theorem shows_remainder (hc : 0 ≤ c.pos) : c.Shows c.remainder where
  rest := toList_rest hc
  length := (length_remainder hc).symm
  isEof := (remainder_eq_nil_iff hc).symm
  peek := peek_eq hc
  current := current_eq hc
  sliceTo := toList_sliceTo hc

/-! ## Moves -/

theorem advance_pos_nonneg (hc : 0 ≤ c.pos) (n : Nat) : 0 ≤ (c.advance n).pos := by
  rw [pos_advance]
  omega

/-- Moving a cursor takes characters off its remainder. -/
theorem remainder_advance (hc : 0 ≤ c.pos) (n : Nat) :
    (c.advance n).remainder = c.remainder.drop n := by
  obtain ⟨source, pos⟩ := c
  obtain ⟨k, rfl⟩ := Int.eq_ofNat_of_zero_le hc
  rw [remainder, remainder, List.drop_drop, source_advance, pos_advance]
  rcases Nat.le_total (k + n) source.size with h | h
  · rw [show (min ((k : Int) + n) source.size).toNat = k + n by omega, Int.toNat_natCast]
  · -- also from past the end the cursor moves to the end, where nothing is left either
    rw [show (min ((k : Int) + n) source.size).toNat = source.size by omega, Int.toNat_natCast,
      List.drop_of_length_le (by simp), List.drop_of_length_le (by simpa using h)]

/-- Two moves are one by the sum, since the end of the text stops both. -/
theorem advance_advance (c : Cursor) (m n : Nat) :
    (c.advance m).advance n = c.advance ((m : Int) + n) := by
  obtain ⟨source, pos⟩ := c
  simp only [advance, mk.injEq, true_and]
  omega

/-- After any moves a cursor shows what is left of the remainder that it began with. -/
theorem shows_foldl_advance (hc : 0 ≤ c.pos) (amounts : List Nat) :
    (amounts.foldl (fun d n => d.advance n) c).Shows
      (amounts.foldl (fun l n => l.drop n) c.remainder) := by
  induction amounts generalizing c with
  | nil => exact shows_remainder hc
  | cons n amounts ih =>
    rw [List.foldl_cons, List.foldl_cons, ← remainder_advance hc]
    exact ih (advance_pos_nonneg hc n)

/-- **A cursor is a view of what is left.**  A cursor that does not stand before the start of its
text, though it may stand past the end, answers as a reader of the characters that are left: how
many they are, whether there are none, which of them stands at a place, and which stand before
one.  When it is moved on, it shows those without the characters that it has passed; two moves
are one by their sum, and after any number of moves it shows what is left after all of them.
What it passes and what it then shows are together what it has shown before. -/
theorem shows_rest (c : Cursor) (hc : 0 ≤ c.pos) :
    c.Shows c.rest.toList ∧
    (∀ n : Nat, (c.advance n).Shows (c.rest.toList.drop n)) ∧
    (∀ m n : Nat, (c.advance m).advance n = c.advance ((m : Int) + n)) ∧
    (∀ n : Nat, c.sliceTo (c.pos + n) ++ (c.advance n).rest = c.rest) ∧
    ∀ amounts : List Nat,
      (amounts.foldl (fun d n => d.advance n) c).Shows
        (amounts.foldl (fun l n => l.drop n) c.rest.toList) := by
  rw [toList_rest hc]
  have hmoved : ∀ n : Nat, (c.advance n).Shows (c.remainder.drop n) := fun n => by
    rw [← remainder_advance hc]
    exact shows_remainder (advance_pos_nonneg hc n)
  refine ⟨shows_remainder hc, hmoved, advance_advance c, fun n => ?_, shows_foldl_advance hc⟩
  rw [← Array.toList_inj, Array.toList_append, toList_sliceTo hc, (hmoved n).rest,
    toList_rest hc, List.take_append_drop]

/-- Three places past the end nothing is left, and a move leads back to the end; from the second
letter on two moves pass both of the letters that are left. -/
theorem pastEnd_shows_rest :
    (0 : Int) ≤ 5 ∧
    (Cursor.mk #['a', 'b'] 5).Shows [] ∧
    ((Cursor.mk #['a', 'b'] 5).advance 3).Shows [] ∧
    (0 : Int) ≤ 1 ∧
    ([1, 1].foldl (fun d n => d.advance (n : Nat)) (Cursor.mk #['a', 'b', '\n'] 1)).Shows [] ∧
    Cursor.sliceTo ⟨#['a', 'b', '\n'], 1⟩ 2 ++ (Cursor.advance ⟨#['a', 'b', '\n'], 1⟩ 1).rest
      = #['b', '\n'] := by
  obtain ⟨hpast, hmoved, -⟩ := shows_rest ⟨#['a', 'b'], 5⟩ (by decide)
  obtain ⟨-, -, -, hparts, hmoves⟩ := shows_rest ⟨#['a', 'b', '\n'], 1⟩ (by decide)
  exact ⟨by decide, hpast, hmoved 3, by decide, hmoves [1, 1], hparts 1⟩

end Cursor
end Descent
