import Descent.Proofs.Language
import Mathlib.Data.Nat.Find

/-!
# The longest text that can be read

Several texts of one language may stand at the front of an input, each a prefix of the next.
A parser that takes as much as it can takes the longest of them, and it refuses only where
there is none at all (`Parser.TakesLongest`).

A parser that is covered by a language never takes what is not of the language.  So nothing
is left to show but that it reads the longest text where one stands
(`Parser.Covers.reads_longest`): that it neither stops before the end of it nor commits to
another choice that fails later.  The value of the longest text is then unique, as one input
has one outcome.
-/

namespace Descent

variable {α : Type} {L : List Char → α → Prop} {l t u : List Char}

/-- The prefix `t` of `l` is a text of the language `L`, and none of the texts of `L` in front
of `l` is longer. -/
structure Longest (L : List Char → α → Prop) (l t : List Char) : Prop where
  isPrefix : t <+: l
  mem : ∃ a, L t a
  length_le : ∀ u b, L u b → u <+: l → u.length ≤ t.length

theorem Longest.unique (ht : Longest L l t) (hu : Longest L l u) : t = u := by
  obtain ⟨a, ha⟩ := ht.mem
  obtain ⟨b, hb⟩ := hu.mem
  exact (List.prefix_of_prefix_length_le ht.isPrefix hu.isPrefix
    (hu.length_le t a ha ht.isPrefix)).eq_of_length_le (ht.length_le u b hb hu.isPrefix)

/-- Where a text of a language stands, a longest one does. -/
theorem exists_longest {a : α} (ht : L t a) (hl : t <+: l) : ∃ u, Longest L l u := by
  classical
  let hasLength (k : Nat) : Prop := ∃ u b, L u b ∧ u <+: l ∧ u.length = k
  obtain ⟨u, b, hb, hu, hlen⟩ : hasLength (Nat.findGreatest hasLength l.length) :=
    Nat.findGreatest_spec hl.length_le ⟨t, a, ht, hl, rfl⟩
  refine ⟨u, hu, ⟨b, hb⟩, fun v c hc hv => Nat.not_lt.mp fun hlt => ?_⟩
  exact Nat.findGreatest_is_greatest (hlen ▸ hlt) hv.length_le ⟨v, c, hc, hv, rfl⟩

namespace Parser

/-- If a covered parser reads the longest text wherever one stands, then it refuses only where
there is none, and the text that it reads has one value. -/
theorem Covers.reads_longest {p : Parser (List Char) α} {G : Array DepthGuard}
    (h : p.Covers G L)
    (hreads : ∀ t a r, L t a → Longest L (t ++ r) t → p.Reads G (t ++ r) r a)
    (l : List Char) :
    (∃ t a r, l = t ++ r ∧ Longest L l t ∧ (∀ b, L t b ↔ b = a) ∧ p.Reads G l r a) ∨
      (∀ t a, L t a → ¬ t <+: l) ∧ p.Refuses G l := by
  by_cases hno : ∃ t a, L t a ∧ t <+: l
  · obtain ⟨u, b, hu, hl⟩ := hno
    obtain ⟨t, ht⟩ := exists_longest hu hl
    obtain ⟨a, ha⟩ := ht.mem
    obtain ⟨r, rfl⟩ := ht.isPrefix
    have hread := hreads t a r ha ht
    refine Or.inl ⟨t, a, r, rfl, ht, fun b => ⟨fun hb => ?_, fun hb => hb ▸ ha⟩, hread⟩
    exact (Outcome.success.inj ((hreads t b r hb ht).unique hread)).2
  · have hnone : ∀ t a, L t a → ¬ t <+: l := fun t a ha hl => hno ⟨t, a, ha, hl⟩
    exact Or.inr ⟨hnone, h.refuses fun t a r ha hl => hnone t a ha ⟨r, hl.symm⟩⟩

/-- On the cursor `c`, from the state `s`, the parser takes the longest text of the language
`L` that stands there.  It returns and leaves the guards as they were; it succeeds exactly if
some text of `L` stands there, and then the value is the only one that the longest of these
texts has, and what is left begins after that text. -/
def TakesLongest (p : Parser Cursor α) (L : List Char → α → Prop) (c : Cursor)
    (s : RunState) : Prop :=
  ∃ o s', p c s = .ok o s' ∧ s'.guards = s.guards ∧
    ((∃ r a, o = .success r a) ↔ ∃ t a, L t a ∧ t <+: c.remainder) ∧
    ∀ r a, o = .success r a → ∃ t, Longest L c.remainder t ∧ (∀ b, L t b ↔ b = a) ∧
      r = { c with pos := c.pos + t.length }

end Parser

/-- What leaves a suffix of the remainder of a cursor has moved over the rest of it. -/
theorem Cursor.leaving_of_remainder_eq {c : Cursor} (h₀ : 0 ≤ c.pos)
    (h₁ : c.pos ≤ c.source.size) {t r : List Char} (h : c.remainder = t ++ r) :
    Cursor.leaving c.source r = { c with pos := c.pos + t.length } := by
  have hlen := congrArg List.length h
  rw [Cursor.remainder, List.length_drop, Array.length_toList, List.length_append] at hlen
  have hpos : (c.source.size : Int) - r.length = c.pos + t.length := by omega
  simp only [Cursor.leaving, hpos]

/-- A grammar that takes the longest text of a language from what a cursor leaves takes it
from the cursor. -/
theorem Rules.takesLongest {ρ : Type} {τ : ρ → Type} {rules : Rules Primitive τ}
    {e : Expr Primitive τ α} {calls : Nat} {c : Cursor} (h₀ : 0 ≤ c.pos)
    (h₁ : c.pos ≤ c.source.size) {s : RunState}
    (h : (rules.parse e calls).Covers s.guards L)
    (hreads : ∀ t a r, L t a → Longest L (t ++ r) t →
      (rules.parse e calls).Reads s.guards (t ++ r) r a) :
    (rules.parse e calls).TakesLongest L c s := by
  have hc := Cursor.leaving_remainder h₀ h₁
  rcases h.reads_longest hreads c.remainder with ⟨t, a, r, hl, ht, ha, hread⟩ | ⟨hnone, hno⟩
  · obtain ⟨s', hs', hg⟩ := Rules.parse_of_reads c.remainder_suffix hread
    rw [hc, Cursor.leaving_of_remainder_eq h₀ h₁ hl] at hs'
    refine ⟨_, s', hs', hg, ⟨fun _ => ⟨t, a, (ha a).mpr rfl, ht.isPrefix⟩, fun _ => ⟨_, _, rfl⟩⟩,
      fun r' b hb => ?_⟩
    obtain ⟨rfl, rfl⟩ := Outcome.success.inj hb
    exact ⟨t, ht, ha, rfl⟩
  · obtain ⟨j, i, s', hs', hg, -⟩ := Rules.parse_of_refuses c.remainder_suffix hno
    rw [hc] at hs'
    refine ⟨_, s', hs', hg, ⟨?_, ?_⟩, ?_⟩
    · rintro ⟨r, a, hr⟩
      cases hr
    · rintro ⟨t, a, ha, ht⟩
      exact absurd ht (hnone t a ha)
    · intro r a hr
      cases hr

end Descent
