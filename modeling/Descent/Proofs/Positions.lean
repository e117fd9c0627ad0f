import Descent.Text.Position
import Mathlib.Data.List.Induction
import Mathlib.Data.Prod.Lex

/-!
# Lines and columns

A cursor finds its line and column by looking back: it counts the line feeds before it and
searches for the last of them.  A reader who goes through the text finds them by stepping, and
has the position of every place on the way.  The two agree, since counting and searching up to
one more place is a step of the reader (`Cursor.lineColumn_succ`).

Of the steps nothing is needed but that each of them moves on, to a later line or to a later
column of the same line (`Text.toLex_lt_stepPosition`).  So in the order of reading, by line
and then by column, a later place has a later position, and no two places of one text have the
same one (`Cursor.lineColumn_stepwise`).
-/

namespace Descent

namespace Text

/-! ## Positions of a reader -/

/-- One more character moves the position on, by line first and then by column. -/
theorem toLex_lt_stepPosition (position : Nat × Nat) (ch : Char) :
    toLex position < toLex (stepPosition position ch) := by
  rw [Prod.Lex.toLex_lt_toLex, stepPosition]
  split
  · exact .inl (Nat.lt_succ_self _)
  · exact .inr ⟨rfl, Nat.lt_succ_self _⟩

/-- More characters move the position on. -/
theorem toLex_positionAfter_lt_append (chars : List Char) {more : List Char} (h : more ≠ []) :
    toLex (positionAfter chars) < toLex (positionAfter (chars ++ more)) := by
  induction more using List.reverseRecOn with
  | nil => exact absurd rfl h
  | append_singleton more ch ih =>
    rw [← List.append_assoc, positionAfter_concat]
    have hstep := toLex_lt_stepPosition (positionAfter (chars ++ more)) ch
    rcases eq_or_ne more [] with rfl | hmore
    · rwa [List.append_nil] at hstep ⊢
    · exact (ih hmore).trans hstep

/-- A reader counts lines and columns from one. -/
theorem one_le_positionAfter (chars : List Char) :
    1 ≤ (positionAfter chars).1 ∧ 1 ≤ (positionAfter chars).2 := by
  induction chars using List.reverseRecOn with
  | nil => exact ⟨Nat.le_refl _, Nat.le_refl _⟩
  | append_singleton chars ch ih =>
    rw [positionAfter_concat, stepPosition]
    split
    · exact ⟨Nat.le_succ_of_le ih.1, Nat.le_refl _⟩
    · exact ⟨ih.1, Nat.le_succ_of_le ih.2⟩

/-- The characters before the next place are those before this one and the one here. -/
theorem take_succ {t : Text} {n : Nat} (h : n < t.size) :
    t.toList.take (n + 1) = t.toList.take n ++ [t[n]] := by
  rw [List.take_succ_eq_append_getElem (by simpa using h), Array.getElem_toList]

end Text

/-! ## Positions of a cursor -/

namespace Cursor

/-- Up to a place in the text the line feeds are counted and the last of them is found. -/
theorem lineColumn_of_le {source : Text} {n : Nat} (h : n ≤ source.size) :
    lineColumn { source := source, pos := n }
      = ((source.toList.take n).count '\n' + 1,
        (source.lastBefore '\n' n).elim ((n : Int) + 1) fun newline => n - newline) := by
  have hmin : min (n : Int) source.size = n := by omega
  have hcount : (source.extract 0 n).count '\n' = (source.toList.take n).count '\n' := by
    rw [← Array.count_toList, Array.toList_extract, List.extract_eq_take_drop, List.drop_zero,
      Nat.sub_zero]
  simp only [lineColumn, hmin, Text.bound_natCast, Nat.min_eq_left h, hcount]
  cases source.lastBefore '\n' n <;> rfl

/-- Behind one more character the line and column are one step on. -/
theorem lineColumn_succ {source : Text} {n : Nat} (h : n < source.size) :
    lineColumn { source := source, pos := (n + 1 : Nat) }
      = if source[n] = '\n' then ((lineColumn { source := source, pos := n }).1 + 1, 1)
        else ((lineColumn { source := source, pos := n }).1,
          (lineColumn { source := source, pos := n }).2 + 1) := by
  rw [lineColumn_of_le (n := n + 1) h, lineColumn_of_le (Nat.le_of_lt h), Text.take_succ h,
    List.count_append, List.count_singleton, Text.lastBefore_succ, Array.getElem?_eq_getElem h]
  by_cases hch : source[n] = '\n'
  · simp only [hch, beq_self_eq_true, if_true, Option.elim_some, Prod.mk.injEq, true_and]
    omega
  · simp only [hch, Option.some.injEq, beq_iff_eq, if_false, Prod.mk.injEq, Nat.add_zero,
      true_and]
    cases source.lastBefore '\n' n with
    | none =>
      simp only [Option.elim_none]
      omega
    | some newline =>
      simp only [Option.elim_some]
      omega

/-- A cursor in its text stands at the position that a reader of the characters before it has
come to. -/
theorem lineColumn_eq_positionAfter {source : Text} {n : Nat} (h : n ≤ source.size) :
    lineColumn { source := source, pos := n }
      = ((Text.positionAfter (source.toList.take n)).1,
        ((Text.positionAfter (source.toList.take n)).2 : Int)) := by
  induction n with
  | zero =>
    rw [lineColumn_of_le h]
    rfl
  | succ n ih =>
    have hlt : n < source.size := h
    rw [lineColumn_succ hlt, ih (Nat.le_of_lt hlt), Text.take_succ hlt,
      Text.positionAfter_concat, Text.stepPosition]
    split <;> rfl

/-- A cursor in its text stands in a line and a column that count from one. -/
theorem one_le_lineColumn {c : Cursor} (h₀ : 0 ≤ c.pos) (h₁ : c.pos ≤ c.source.size) :
    1 ≤ c.lineColumn.1 ∧ 1 ≤ c.lineColumn.2 := by
  obtain ⟨source, pos⟩ := c
  obtain ⟨n, rfl⟩ := Int.eq_ofNat_of_zero_le h₀
  rw [lineColumn_eq_positionAfter (Int.ofNat_le.mp h₁)]
  exact (Text.one_le_positionAfter (source.toList.take n)).imp_right Int.ofNat_le.mpr

/-- A later place has a later position. -/
theorem toLex_lineColumn_lt {source : Text} {n m : Nat} (h : n < m) (hm : m ≤ source.size) :
    toLex (lineColumn { source := source, pos := n })
      < toLex (lineColumn { source := source, pos := m }) := by
  obtain ⟨k, rfl⟩ := Nat.exists_eq_add_of_lt h
  have hmore : (source.toList.drop n).take (k + 1) ≠ [] := by
    rw [← List.length_pos_iff, List.length_take, List.length_drop, Array.length_toList]
    omega
  have hlt := Text.toLex_positionAfter_lt_append (source.toList.take n) hmore
  rw [← List.take_add, ← Nat.add_assoc, Prod.Lex.toLex_lt_toLex] at hlt
  rw [lineColumn_eq_positionAfter hm, lineColumn_eq_positionAfter (Nat.le_trans h.le hm),
    Prod.Lex.toLex_lt_toLex]
  exact hlt.imp id (And.imp_right Int.ofNat_lt.mpr)

/-- **A cursor knows its line and column as a reader does.**  At every place of a text they are
those that a reader has come to who has stepped through the characters before it, and both of
them are one at least.  They grow strictly, in the order of reading, as the place moves on; so
different places have different ones. -/
theorem lineColumn_stepwise (source : Text) :
    (∀ pos : Int, 0 ≤ pos → pos ≤ source.size →
      lineColumn { source := source, pos := pos }
        = ((Text.positionAfter (source.toList.take pos.toNat)).1,
          ((Text.positionAfter (source.toList.take pos.toNat)).2 : Int)) ∧
      1 ≤ (lineColumn { source := source, pos := pos }).1 ∧
      1 ≤ (lineColumn { source := source, pos := pos }).2) ∧
    (∀ pos pos' : Int, 0 ≤ pos → pos < pos' → pos' ≤ source.size →
      toLex (lineColumn { source := source, pos := pos })
        < toLex (lineColumn { source := source, pos := pos' })) ∧
    ∀ pos pos' : Int, 0 ≤ pos → pos ≤ source.size → 0 ≤ pos' → pos' ≤ source.size →
      lineColumn { source := source, pos := pos } = lineColumn { source := source, pos := pos' } →
      pos = pos' := by
  have hmoves : ∀ pos pos' : Int, 0 ≤ pos → pos < pos' → pos' ≤ source.size →
      toLex (lineColumn { source := source, pos := pos })
        < toLex (lineColumn { source := source, pos := pos' }) := by
    intro pos pos' hpos hlt hsize
    obtain ⟨n, rfl⟩ := Int.eq_ofNat_of_zero_le hpos
    obtain ⟨m, rfl⟩ := Int.eq_ofNat_of_zero_le (Int.le_trans hpos (Int.le_of_lt hlt))
    exact toLex_lineColumn_lt (Int.ofNat_lt.mp hlt) (Int.ofNat_le.mp hsize)
  refine ⟨fun pos hpos hsize => ⟨?_, one_le_lineColumn hpos hsize⟩, hmoves, ?_⟩
  · obtain ⟨n, rfl⟩ := Int.eq_ofNat_of_zero_le hpos
    exact lineColumn_eq_positionAfter (Int.ofNat_le.mp hsize)
  · intro pos pos' hpos hsize hpos' hsize' h
    rcases Int.lt_trichotomy pos pos' with hlt | heq | hlt
    · exact absurd (congrArg toLex h) (hmoves pos pos' hpos hlt hsize').ne
    · exact heq
    · exact absurd (congrArg toLex h) (hmoves pos' pos hpos' hlt hsize).ne'

/-- Behind two line feeds a letter stands at the first column of the third line.  The empty line
between them comes after the first one, and its line feed and the end of the text are told
apart. -/
theorem emptyLine_stepwise :
    lineColumn { source := #['a', '\n', '\n', 'b'], pos := 3 } = (3, 1) ∧
    1 ≤ (lineColumn { source := #['a', '\n', '\n', 'b'], pos := 3 }).2 ∧
    toLex (lineColumn { source := #['a', '\n', '\n', 'b'], pos := 1 })
      < toLex (lineColumn { source := #['a', '\n', '\n', 'b'], pos := 2 }) ∧
    lineColumn { source := #['a', '\n', '\n', 'b'], pos := 2 }
      ≠ lineColumn { source := #['a', '\n', '\n', 'b'], pos := 4 } := by
  obtain ⟨hreader, hmoves, hinj⟩ := lineColumn_stepwise #['a', '\n', '\n', 'b']
  obtain ⟨hb, -, hcolumn⟩ := hreader 3 (by decide) (by decide)
  exact ⟨hb.trans rfl, hcolumn, hmoves 1 2 (by decide) (by decide) (by decide),
    fun h => absurd (hinj 2 4 (by decide) (by decide) (by decide) (by decide) h) (by decide)⟩

end Cursor
end Descent
