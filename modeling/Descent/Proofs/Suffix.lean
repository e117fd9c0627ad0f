import Descent.Proofs.Alike
import Descent.Text.Primitive

/-!
# What is left of a text

The primitives read from a cursor by absolute positions: they index the whole text, cut
slices out of it and clamp what lies outside.  What they say depends on much less.  A
cursor that stands inside its text or at its end leaves a suffix of the text, and the
primitives can be read from that list of characters alone, with no text and no position.

`Primitive.readList` reads them from lists, which makes a list of characters an input of
every grammar over the primitives.  The suffixes of a text and its cursors are related one
to one (`Cursor.Leaves`), the primitives respect the relation (`readsAlike_leaves`), and so
`Rules.parse_leaving` gives the run on a cursor as the run on what is left.

The relation also fixes a list `origin` that every input of the run is a suffix of.  So the
remainder of a run is a suffix of what it began with, and the cursor of the remainder stands
no further back than the cursor of the beginning.
-/

namespace Descent

/-! ## Primitives on a list of characters -/

namespace Primitive

/-- Read a primitive from a list of characters. -/
def readList {α : Type} : Primitive α → List Char → Outcome (List Char) α
  | .run cls allowEmpty, l =>
    if (l.takeWhile cls.admits).isEmpty && !allowEmpty then .failure l 0
    else .success (l.dropWhile cls.admits) (l.takeWhile cls.admits).toArray
  | .literal chars, l =>
    if chars.toList.isPrefixOf l then .success (l.drop chars.size) chars
    else .failure l (Text.commonPrefix chars.toList (l.take chars.size) + 1)
  | .eof, l => if l.isEmpty then .success l () else .failure l 0

instance : Terminal Primitive (List Char) where
  read t l := ([], .ok (t.readList l))

/-- The primitives take characters off the front of a list. -/
theorem suffix_of_readList {α : Type} {t : Primitive α} {l r : List Char} {a : α}
    (h : t.readList l = .success r a) : r <:+ l := by
  cases t with
  | run cls allowEmpty =>
    rw [readList] at h
    split at h
    · cases h
    · cases h
      exact List.dropWhile_suffix _
  | literal chars =>
    rw [readList] at h
    split at h
    · cases h
      exact List.drop_suffix _ _
    · cases h
  | eof =>
    rw [readList] at h
    split at h
    · cases h
      exact List.suffix_refl _
    · cases h

end Primitive

/-! ## Cursors that leave a suffix -/

namespace Cursor

/-- The cursor of `source` that leaves the suffix `l`. -/
def leaving (source : Text) (l : List Char) : Cursor :=
  { source := source, pos := source.size - l.length }

/-- What is left at a cursor, as a list of characters. -/
def remainder (c : Cursor) : List Char := c.source.toList.drop c.pos.toNat

/-- The cursor `c` of `source` leaves the list `l`, which is a suffix of `origin`. -/
structure Leaves (source : Text) (origin : List Char) (c : Cursor) (l : List Char) :
    Prop where
  suffix : l <:+ origin
  eq : c = leaving source l

theorem remainder_suffix (c : Cursor) : c.remainder <:+ c.source.toList :=
  List.drop_suffix _ _

/-- The text up to a bound is the beginning of the remainder. -/
theorem toList_sliceTo {c : Cursor} (hc : 0 ≤ c.pos) (n : Nat) :
    (c.sliceTo (c.pos + n)).toList = c.remainder.take n := by
  obtain ⟨source, pos⟩ := c
  obtain ⟨k, rfl⟩ := Int.eq_ofNat_of_zero_le hc
  rw [Cursor.sliceTo, remainder, ← Int.natCast_add, Text.slice_natCast, Array.toList_extract,
    List.extract_eq_take_drop, Int.toNat_natCast]
  rcases Nat.le_total k source.size with h | h
  · rw [Nat.min_eq_left h, List.take_eq_take_iff, List.length_drop, Array.length_toList]
    omega
  · -- past the end the slice starts at the end, and neither side has a character
    rw [Nat.min_eq_right h, List.drop_of_length_le (by simp),
      List.drop_of_length_le (by simpa using h), List.take_nil, List.take_nil]

theorem toList_rest {c : Cursor} (hc : 0 ≤ c.pos) : c.rest.toList = c.remainder := by
  have hslice : c.rest.toList = (c.sliceTo (c.pos + c.source.size)).toList := by
    obtain ⟨source, pos⟩ := c
    obtain ⟨k, rfl⟩ := Int.eq_ofNat_of_zero_le hc
    rw [Cursor.rest, Cursor.sliceTo, ← Int.natCast_add, Text.slice_natCast, Text.slice_natCast,
      Nat.min_self, Nat.min_eq_right (Nat.le_add_left _ k)]
  rw [hslice, toList_sliceTo hc, List.take_of_length_le]
  rw [remainder, List.length_drop, Array.length_toList]
  omega

theorem length_remainder {c : Cursor} (hc : 0 ≤ c.pos) : c.remainder.length = c.length := by
  rw [remainder, List.length_drop, Array.length_toList, Cursor.length]
  omega

theorem remainder_eq_nil_iff {c : Cursor} (hc : 0 ≤ c.pos) :
    c.remainder = [] ↔ c.isEof = true := by
  rw [← List.length_eq_zero_iff, length_remainder hc, Cursor.length, Cursor.isEof,
    decide_eq_true_eq]
  omega

/-- A cursor that stands inside its text or at its end is the one that leaves its
remainder. -/
theorem leaving_remainder {c : Cursor} (h₀ : 0 ≤ c.pos) (h₁ : c.pos ≤ c.source.size) :
    leaving c.source c.remainder = c := by
  obtain ⟨source, pos⟩ := c
  simp only at h₀ h₁
  have hpos : (source.size : Int) - (source.toList.drop pos.toNat).length = pos := by
    rw [List.length_drop, Array.length_toList]
    omega
  simp only [leaving, remainder, hpos]

/-- The cursor that leaves what comes after a position stands at that position. -/
theorem leaving_drop {source : Text} {n : Nat} (h : n ≤ source.size) :
    leaving source (source.toList.drop n) = { source := source, pos := n } :=
  leaving_remainder (c := { source := source, pos := n }) (Int.natCast_nonneg n)
    (Int.ofNat_le.mpr h)

/-- The cursor at the start leaves the whole text. -/
theorem leaving_toList (source : Text) : leaving source source.toList = { source := source } := by
  simp only [leaving, Array.length_toList, Int.sub_self]

/-- A text with a suffix, as the characters before the suffix and the suffix. -/
theorem exists_append_of_suffix {source : Text} {l : List Char} (h : l <:+ source.toList) :
    ∃ u, source = (u ++ l).toArray := by
  obtain ⟨u, hu⟩ := h
  exact ⟨u, by rw [hu, Array.toArray_toList]⟩

theorem pos_leaving_append (u l : List Char) :
    (leaving (u ++ l).toArray l).pos = u.length := by
  simp only [leaving, List.size_toArray, List.length_append]
  omega

theorem leaving_append (u l : List Char) :
    leaving (u ++ l).toArray l = { source := (u ++ l).toArray, pos := u.length } := by
  rw [← pos_leaving_append u l]
  rfl

theorem advance_leaving (u l : List Char) {n : Nat} (hn : n ≤ l.length) :
    (leaving (u ++ l).toArray l).advance n = leaving (u ++ l).toArray (l.drop n) := by
  simp only [leaving, advance, List.size_toArray, List.length_append, List.length_drop]
  congr 1
  omega

theorem remainder_leaving (u l : List Char) : (leaving (u ++ l).toArray l).remainder = l := by
  rw [remainder, pos_leaving_append, Int.toNat_natCast, leaving, List.toList_toArray,
    List.drop_left]

theorem pos_leaving_nonneg (u l : List Char) : 0 ≤ (leaving (u ++ l).toArray l).pos := by
  rw [pos_leaving_append]
  exact Int.natCast_nonneg _

theorem sliceTo_leaving (u l : List Char) (n : Nat) :
    (leaving (u ++ l).toArray l).sliceTo (u.length + n) = (l.take n).toArray := by
  rw [← Array.toList_inj, ← pos_leaving_append u l, toList_sliceTo (pos_leaving_nonneg u l),
    remainder_leaving]

theorem isEof_leaving (u l : List Char) :
    (leaving (u ++ l).toArray l).isEof = l.isEmpty := by
  rw [Bool.eq_iff_iff, ← remainder_eq_nil_iff (pos_leaving_nonneg u l), remainder_leaving,
    List.isEmpty_iff]

/-- Two suffixes of one list are equal if cursors of one text leave them and are equal. -/
theorem leaving_inj {source : Text} {origin l m : List Char} (hl : l <:+ origin)
    (hm : m <:+ origin) : leaving source m = leaving source l ↔ m = l := by
  constructor
  · intro h
    have hlen : m.length = l.length := by
      have := congrArg pos h
      simp only [leaving] at this
      omega
    exact (List.suffix_of_suffix_length_le hm hl (by omega)).eq_of_length hlen
  · rintro rfl
    rfl

end Cursor

/-! ## Reading from the cursor and reading from the list -/

namespace Text

/-- A run stops after the longest prefix of the suffix whose characters are admitted. -/
theorem runEnd_append (cls : CharClass) (u l : List Char) :
    runEnd (u ++ l).toArray cls l.length u.length
      = some ((u.length : Int) + (l.takeWhile cls.admits).length) := by
  induction l generalizing u with
  | nil => simp [runEnd]
  | cons ch l ih =>
    have hat : at? (u ++ ch :: l).toArray (u.length : Int) = some ch := by
      rw [at?_natCast]
      simp
    rw [List.length_cons, runEnd, hat]
    simp only
    by_cases hch : cls.admits ch = true
    · have h := ih (u ++ [ch])
      rw [List.append_assoc, List.singleton_append, List.length_append, List.length_singleton,
        Int.natCast_add] at h
      simp only [hch, if_true, Int.cast_ofNat_Int, List.takeWhile_cons] at h ⊢
      rw [h, List.length_cons, Option.some_inj]
      omega
    · simp [hch]

/-- A text goes on with a literal when the suffix begins with it. -/
theorem continuesWith_append (u l : List Char) (literal : Text) :
    continuesWith (u ++ l).toArray literal u.length = literal.toList.isPrefixOf l := by
  have hneg : ¬ (u.length : Int) < 0 := by omega
  rw [Bool.eq_iff_iff]
  simp only [continuesWith, hneg, if_false, Int.toNat_natCast, Bool.and_eq_true,
    decide_eq_true_eq, beq_iff_eq, List.isPrefixOf_iff_prefix, List.size_toArray,
    List.length_append, List.extract_toArray, List.extract_eq_take_drop]
  rw [List.drop_left, show u.length + literal.size - u.length = literal.size by omega]
  constructor
  · rintro ⟨_, h⟩
    rw [← h]
    exact List.take_prefix _ _
  · rintro ⟨r, hr⟩
    rw [← hr, ← Array.length_toList, List.take_left]
    refine ⟨?_, Array.toArray_toList⟩
    rw [List.length_append]
    omega

end Text

namespace Primitive

open Cursor

/-- The characters that a run takes and those it leaves, by how many it takes. -/
theorem take_drop_length_takeWhile {α : Type} (p : α → Bool) (l : List α) :
    l.take (l.takeWhile p).length = l.takeWhile p ∧
      l.drop (l.takeWhile p).length = l.dropWhile p := by
  have hle : (l.takeWhile p).length ≤ l.length := (List.takeWhile_prefix p).length_le
  refine List.append_inj ?_ ?_
  · rw [List.take_append_drop, List.takeWhile_append_dropWhile]
  · rw [List.length_take, Nat.min_eq_left hle]

theorem readRun_leaving (cls : CharClass) (allowEmpty : Bool) (u l : List Char) :
    readRun cls allowEmpty (leaving (u ++ l).toArray l)
      = if (l.takeWhile cls.admits).isEmpty && !allowEmpty then
          .ok (.failure (leaving (u ++ l).toArray l) 0)
        else .ok (.success (leaving (u ++ l).toArray (l.dropWhile cls.admits))
          (l.takeWhile cls.admits).toArray) := by
  have hlen : (l.takeWhile cls.admits).length ≤ l.length :=
    (List.takeWhile_prefix cls.admits).length_le
  have hsteps : ((u ++ l).toArray.size - (u.length : Int)).toNat = l.length := by
    simp only [List.size_toArray, List.length_append]
    omega
  obtain ⟨htake, hdrop⟩ := take_drop_length_takeWhile cls.admits l
  have hempty : (((u.length : Int) + (l.takeWhile cls.admits).length = u.length) : Bool)
      = (l.takeWhile cls.admits).isEmpty := by
    rw [Bool.eq_iff_iff, decide_eq_true_eq, List.isEmpty_iff, ← List.length_eq_zero_iff]
    omega
  unfold readRun
  simp only [leaving_append, hsteps, Text.runEnd_append, hempty]
  split
  · rfl
  · rw [show (u.length : Int) + (l.takeWhile cls.admits).length - u.length
        = ((l.takeWhile cls.admits).length : Nat) by omega, ← leaving_append,
      advance_leaving u l hlen, sliceTo_leaving, hdrop, htake]

theorem readLiteral_leaving (chars : Text) (u l : List Char) :
    readLiteral chars (leaving (u ++ l).toArray l)
      = if chars.toList.isPrefixOf l then
          .success (leaving (u ++ l).toArray (l.drop chars.size)) chars
        else .failure (leaving (u ++ l).toArray l)
          (Text.commonPrefix chars.toList (l.take chars.size) + 1) := by
  unfold readLiteral
  rw [pos_leaving_append]
  simp only [show (leaving (u ++ l).toArray l).source = (u ++ l).toArray from rfl,
    Text.continuesWith_append, sliceTo_leaving]
  split
  · next h =>
    have hle : chars.size ≤ l.length := by
      rw [← Array.length_toList]
      exact (List.isPrefixOf_iff_prefix.mp h).length_le
    rw [advance_leaving u l hle]
  · rfl

end Primitive

/-- **The primitives read a cursor as they read what it leaves.** -/
theorem readsAlike_leaves {source : Text} {origin : List Char}
    (ho : origin <:+ source.toList) :
    ReadsAlike Primitive (Cursor.Leaves source origin) where
  read t c l h := by
    obtain ⟨hl, rfl⟩ := h
    obtain ⟨u, rfl⟩ := Cursor.exists_append_of_suffix (hl.trans ho)
    cases t with
    | run cls allowEmpty =>
      show Terminal.AnswerAlike _ (Primitive.readRun cls allowEmpty _)
        (.ok (Primitive.readList (.run cls allowEmpty) l))
      rw [Primitive.readRun_leaving, Primitive.readList]
      split
      · exact .failure ⟨hl, rfl⟩ 0
      · exact .success ⟨(List.dropWhile_suffix _).trans hl, rfl⟩ _
    | literal chars =>
      show Terminal.AnswerAlike _ (.ok (Primitive.readLiteral chars _))
        (.ok (Primitive.readList (.literal chars) l))
      rw [Primitive.readLiteral_leaving, Primitive.readList]
      split
      · exact .success ⟨(List.drop_suffix _ _).trans hl, rfl⟩ _
      · exact .failure ⟨hl, rfl⟩ _
    | eof =>
      show Terminal.AnswerAlike _ (.ok (Primitive.readEof _))
        (.ok (Primitive.readList .eof l))
      rw [Primitive.readEof, Cursor.isEof_leaving, Primitive.readList]
      split
      · exact .success ⟨hl, rfl⟩ _
      · exact .failure ⟨hl, rfl⟩ _
  eq_iff := by
    rintro c r l m ⟨hl, rfl⟩ ⟨hm, rfl⟩
    exact Cursor.leaving_inj hl hm
  extent_eq := by
    rintro c l ⟨hl, rfl⟩
    have hlen : l.length ≤ source.size := by
      rw [← Array.length_toList]
      exact (hl.trans ho).length_le
    rw [Cursor.extent_eq, extent_list, if_neg (by simp only [Cursor.leaving]; omega)]
    simp only [Cursor.length, Cursor.leaving]
    omega

/-- **A grammar reads a cursor as it reads what the cursor leaves.** -/
theorem Rules.parse_leaving {ρ : Type} {τ : ρ → Type} (rules : Rules Primitive τ) {α : Type}
    (e : Expr Primitive τ α) (calls : Nat) {source : Text} {l : List Char}
    (hl : l <:+ source.toList) (s : RunState) :
    Run.EndAlike (Cursor.Leaves source l) s.guards
      (rules.parse e calls (Cursor.leaving source l) s) (rules.parse e calls l s) :=
  rules.parse_alike (readsAlike_leaves hl) e calls ⟨List.suffix_refl l, rfl⟩ rfl rfl

end Descent
