import Descent.Proofs.Suffix

/-!
# A parse never moves back

Reading consumes: whatever a grammar over the primitives of text does on its way, trying
alternatives, undoing a failure or giving a separator back, the cursor that it hands on
stands in the same text, not before the one it was given, and not past the end.  The same
holds of the cursor of a failure, so a report always points into the text.

By `Rules.parse_leaving` the run on a cursor is the run on the list that the cursor leaves,
and what that run hands on is a suffix of the list.
-/

namespace Descent

/-- The cursor `r` stands in the text of `c`, not before `c` and not past the end. -/
structure Cursor.Ahead (c r : Cursor) : Prop where
  source_eq : r.source = c.source
  pos_le : c.pos ≤ r.pos
  le_size : r.pos ≤ c.source.size

/-- A cursor that leaves a suffix of what is left at `c` stands ahead of `c`. -/
theorem Cursor.Leaves.ahead {c r : Cursor} {l : List Char} (h₀ : 0 ≤ c.pos)
    (h₁ : c.pos ≤ c.source.size) (h : Cursor.Leaves c.source c.remainder r l) :
    c.Ahead r := by
  obtain ⟨hl, rfl⟩ := h
  have hlen : l.length ≤ c.source.size - c.pos.toNat := by
    have := hl.length_le
    rwa [Cursor.remainder, List.length_drop, Array.length_toList] at this
  refine ⟨rfl, ?_, ?_⟩
  · simp only [Cursor.leaving]
    omega
  · simp only [Cursor.leaving]
    omega

variable {ρ : Type} {τ : ρ → Type}

/-- **A parse never moves back and never leaves its text.**  From a cursor that stands
inside its text or at its end, a success hands on a cursor ahead of it, and the input of a
failure is a cursor ahead of it. -/
theorem Rules.parse_ahead (rules : Rules Primitive τ) {α : Type} (e : Expr Primitive τ α)
    (calls : Nat) (c : Cursor) (h₀ : 0 ≤ c.pos) (h₁ : c.pos ≤ c.source.size)
    (s : RunState) :
    (∀ r a s', rules.parse e calls c s = .ok (.success r a) s' → c.Ahead r) ∧
      ∀ j l s', rules.parse e calls c s = .ok (.failure j l) s' → c.Ahead j := by
  have h := rules.parse_leaving e calls c.remainder_suffix s
  rw [Cursor.leaving_remainder h₀ h₁] at h
  refine ⟨fun r a s' hr => ?_, fun j l s' hj => ?_⟩
  · rw [hr] at h
    generalize rules.parse e calls c.remainder s = y at h
    cases h with
    | success h => exact h.ahead h₀ h₁
  · rw [hj] at h
    generalize rules.parse e calls c.remainder s = y at h
    cases h with
    | failure h => exact h.ahead h₀ h₁

/-- Runs of digits with commas between them, and a bracket after them. -/
def bracketedDigits : Rules Primitive (fun _ : Unit => List Text) := fun _ =>
  .terminated (.separated (.run (.between '0' '9')) (.literal ",")) (.literal "]")

/-- On `1,2]` the digits and the bracket are consumed.  On `1,2,]` the last comma is given
back, and the failure that the bracket is missing lies at that comma. -/
theorem bracketedDigits_ahead :
    (∃ r a s', bracketedDigits.parse (.ref ()) 1
        ({ source := #['1', ',', '2', ']'] } : Cursor) {} = .ok (.success r a) s' ∧
      r.pos = 4 ∧ Cursor.Ahead { source := #['1', ',', '2', ']'] } r) ∧
    ∃ j l s', bracketedDigits.parse (.ref ()) 1
        ({ source := #['1', ',', '2', ',', ']'] } : Cursor) {} = .ok (.failure j l) s' ∧
      j.pos = 3 ∧ Cursor.Ahead { source := #['1', ',', '2', ',', ']'] } j :=
  ⟨⟨_, _, _, rfl, rfl, (bracketedDigits.parse_ahead (.ref ()) 1
      { source := #['1', ',', '2', ']'] } (by decide) (by decide) {}).1 _ _ _ rfl⟩,
    ⟨_, _, _, rfl, rfl, (bracketedDigits.parse_ahead (.ref ()) 1
      { source := #['1', ',', '2', ',', ']'] } (by decide) (by decide) {}).2 _ _ _ rfl⟩⟩

end Descent
