import Descent.Proofs.Locations
import Descent.Proofs.Lossless
import Descent.Proofs.Reporting

/-!
# Where a literal stands and where it parts from the text

A literal is looked for in one way and its failure is placed in another.  Whether it stands at
a cursor is asked of the source as a whole, and how far it goes is counted in a slice that the
end of the text may cut short.  What the count finds is the length of the longest common prefix
of the literal and of all that is left (`Text.commonPrefix_isGreatest`): the slice is as long as
the literal, and nothing beyond that counts.

The location of the failure is that length and one more, so that it is never zero, and the mark
takes the one away again (`Render.mark_eq_add`).  So the failure is shown where the text and the
literal part, at the first character that differs or at the end of a text that ran out
(`Rules.parse_literal`).
-/

namespace Descent

/-! ## Where a list parts from another -/

namespace Text

/-- Behind what it shares with another list, a list goes on with a character that the other has
not, or the other list is at its end. -/
theorem parts_of_commonPrefix_lt {a b : List Char} (h : commonPrefix a b < a.length) :
    (∃ found wanted, b[commonPrefix a b]? = some found ∧ a[commonPrefix a b]? = some wanted ∧
      found ≠ wanted) ∨ (commonPrefix a b = b.length ∧ b <+: a) := by
  induction a generalizing b with
  | nil => exact absurd h (Nat.not_lt_zero _)
  | cons c a ih =>
    cases b with
    | nil => exact .inr ⟨rfl, List.nil_prefix⟩
    | cons c' b =>
      rw [commonPrefix_cons] at h ⊢
      split
      · next hc =>
        rw [if_pos hc] at h
        rcases ih (Nat.lt_of_succ_lt_succ h) with hdiffer | ⟨hlength, hprefix⟩
        · exact .inl hdiffer
        · exact .inr ⟨congrArg (· + 1) hlength, List.cons_prefix_cons.mpr ⟨hc.symm, hprefix⟩⟩
      · next hc => exact .inl ⟨c', c, rfl, rfl, Ne.symm hc⟩

end Text

/-- From the cursor `c` on the text has the first `l` characters of a literal and no more of it:
behind them it goes on with another character than the literal does, or it has ended in the
middle of the literal. -/
structure Cursor.PartsAfter (c : Cursor) (literal : List Char) (l : Nat) : Prop where
  longest : IsGreatest {k | ∃ p, p <+: literal ∧ p <+: c.rest.toList ∧ p.length = k} l
  lt_length : l < literal.length
  parts : (∃ found wanted, c.source.at? (c.pos + l) = some found ∧ literal[l]? = some wanted ∧
    found ≠ wanted) ∨ (c.pos + l = c.source.size ∧ c.rest.toList <+: literal)

/-- Where a literal does not stand, it parts from the text. -/
theorem Cursor.partsAfter_leaving (u l : List Char) {literal : List Char}
    (h : ¬ literal <+: l) :
    (Cursor.leaving (u ++ l).toArray l).PartsAfter literal (Text.commonPrefix literal l) where
  longest := by
    rw [Cursor.rest_leaving]
    exact Text.commonPrefix_isGreatest literal l
  lt_length := Text.commonPrefix_lt h
  parts := by
    rw [Cursor.rest_leaving, Cursor.leaving_append]
    simp only [← Int.natCast_add, Text.at?_natCast, List.getElem?_toArray, List.size_toArray,
      List.length_append, List.getElem?_append_right (Nat.le_add_right _ _),
      Nat.add_sub_cancel_left]
    refine (Text.parts_of_commonPrefix_lt (Text.commonPrefix_lt h)).imp id fun h => ?_
    exact ⟨by rw [h.1], h.2⟩

/-- The place where a literal parts from the text is in the text or at its end. -/
theorem Cursor.PartsAfter.le_size {c : Cursor} {literal : List Char} {l : Nat}
    (h : c.PartsAfter literal l) (h₀ : 0 ≤ c.pos) : c.pos + l ≤ c.source.size := by
  rcases h.parts with ⟨found, wanted, hfound, -, -⟩ | ⟨hend, -⟩
  · rw [Text.at?_of_nonneg (by omega)] at hfound
    obtain ⟨hlt, -⟩ := Array.getElem?_eq_some_iff.mp hfound
    omega
  · omega

/-- A cursor behind some of the characters that are left stands as many places further on. -/
theorem Cursor.leaving_append_right (u taken left : List Char) :
    leaving (u ++ (taken ++ left)).toArray left
      = { leaving (u ++ (taken ++ left)).toArray (taken ++ left) with
          pos := (leaving (u ++ (taken ++ left)).toArray (taken ++ left)).pos + taken.length } := by
  simp only [leaving, List.length_append, Cursor.mk.injEq, true_and]
  omega

/-- A failure inside a text is marked one place before its location. -/
theorem Render.mark_eq_add {c : Cursor} {l : Nat} (h : c.pos + l ≤ c.source.size) :
    mark c (l + 1) = c.pos + l := by
  unfold mark
  simp only
  omega

/-- **A literal is read where it stands, and fails where it parts from the text.**  From a cursor
inside its text or at its end, a literal that the remaining text begins with is read, and the
cursor moves on by its length.  Any other literal fails on the cursor itself, at a location
between one and its length, which is one more than the length `l` of what the text and the
literal share; and the failure is shown `l` places behind the cursor, where the first character
stands that differs from the literal, or where the text ends if it has run out. -/
theorem Rules.parse_literal {ρ : Type} {τ : ρ → Type} (rules : Rules Primitive τ) (calls : Nat)
    (literal : String) (c : Cursor) (h₀ : 0 ≤ c.pos) (h₁ : c.pos ≤ c.source.size)
    (s : RunState) :
    (literal.toList <+: c.rest.toList →
      rules.parse (.literal literal) calls c s = .ok
        (.success { c with pos := c.pos + literal.length } (Text.ofString literal)) s) ∧
    (¬ literal.toList <+: c.rest.toList →
      ∃ l : Nat, c.PartsAfter literal.toList l ∧
        rules.parse (.literal literal) calls c s = .ok (.failure c (l + 1)) s ∧
        1 ≤ l + 1 ∧ l + 1 ≤ literal.length ∧
        Text.PointsTo c (l + 1) (c.pos + l)) := by
  obtain ⟨u, rest, rfl⟩ := Cursor.Inside.exists_leaving ⟨h₀, h₁⟩
  rw [Cursor.rest_leaving]
  have hparse : rules.parse (.literal literal) calls (Cursor.leaving (u ++ rest).toArray rest) s
      = Run.ofExcept
        (.ok (Primitive.readLiteral (Text.ofString literal)
          (Cursor.leaving (u ++ rest).toArray rest))) s :=
    Parser.parse_terminal_apply rules calls (.literal (Text.ofString literal)) _ s
  rw [Primitive.readLiteral_leaving, Text.toList_ofString, ← Array.length_toList,
    Text.toList_ofString, Text.commonPrefix_take] at hparse
  refine ⟨fun hstands => ?_, fun hparts => ?_⟩
  · obtain ⟨left, rfl⟩ := hstands
    rw [if_pos (by simp), List.drop_left] at hparse
    rw [← String.length_toList, ← Cursor.leaving_append_right]
    exact hparse
  · rw [if_neg (by rwa [List.isPrefixOf_iff_prefix])] at hparse
    have hafter := Cursor.partsAfter_leaving u rest hparts
    refine ⟨_, hafter, hparse, Nat.succ_pos _, ?_, ?_⟩
    · rw [← String.length_toList]
      exact hafter.lt_length
    · rw [← Render.mark_eq_add (hafter.le_size h₀)]
      exact Text.pointsTo_mark _ h₀ h₁

/-- Behind the `x` of `xab` stands `ab`, and of `abc` only the first two characters: the failure
is at location 3 and is shown at the end of the text. -/
theorem textEnds_parse_literal :
    noRules.parse (.literal "ab") 0 ({ source := #['x', 'a', 'b'], pos := 1 } : Cursor) {}
      = .ok (.success { source := #['x', 'a', 'b'], pos := 3 } #['a', 'b']) {} ∧
    ∃ l : Nat, l = 2 ∧
      Cursor.PartsAfter { source := #['x', 'a', 'b'], pos := 1 } ['a', 'b', 'c'] l ∧
      noRules.parse (.literal "abc") 0 ({ source := #['x', 'a', 'b'], pos := 1 } : Cursor) {}
        = .ok (.failure { source := #['x', 'a', 'b'], pos := 1 } (l + 1)) {} ∧
      Text.PointsTo { source := #['x', 'a', 'b'], pos := 1 } (l + 1) (1 + l) := by
  have hread := noRules.parse_literal 0 "ab" { source := #['x', 'a', 'b'], pos := 1 }
    (by decide) (by decide) {}
  have hpart := noRules.parse_literal 0 "abc" { source := #['x', 'a', 'b'], pos := 1 }
    (by decide) (by decide) {}
  refine ⟨hread.1 (by decide), ?_⟩
  obtain ⟨l, hafter, hparse, -, -, hpoints⟩ := hpart.2 (by decide)
  refine ⟨l, ?_, hafter, hparse, hpoints⟩
  have hlocation := (EStateM.Result.ok.inj hparse).1
  have hthree : (3 : Int) = l + 1 := (Outcome.failure.inj hlocation).2
  omega

end Descent
