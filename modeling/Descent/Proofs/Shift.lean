import Descent.Proofs.Consumption
import Descent.Proofs.GuardBalance

/-!
# Nothing before the cursor counts

A cursor holds the whole of its text, and the primitives index that text by absolute
positions.  Still nothing that stands before the cursor can have a part in what is read: if
characters are put in front of a text and the cursor is moved on by as many, every cursor of
the answer is moved on by as many, and nothing else changes.

This is a fact about two runs on cursors, and each of them is alike to the run on the list
that the cursor leaves (`Rules.parse_alike`).  Both cursors leave the same list.
-/

namespace Descent

variable {ι κ α : Type}

/-- The same outcome on other inputs. -/
def Outcome.mapInput (f : ι → κ) : Outcome ι α → Outcome κ α
  | .success remaining value => .success (f remaining) value
  | .failure input location => .failure (f input) location

/-- The same place with the characters `u` put in front of the text. -/
def Cursor.shift (u : Text) (c : Cursor) : Cursor :=
  { source := u ++ c.source, pos := u.size + c.pos }

/-- Characters put in front leave the suffixes of a text alone. -/
theorem Cursor.shift_leaving (u source : Text) (l : List Char) :
    (leaving source l).shift u = leaving (u ++ source) l := by
  simp only [shift, leaving, Array.size_append]
  congr 1
  omega

/-- Runs on two cursors that leave the same list answer alike. -/
theorem Run.answer_mapInput {u source : Text} {l : List Char} {G : Array DepthGuard}
    {x y : EStateM.Result Halt RunState (Outcome Cursor α)}
    {z : EStateM.Result Halt RunState (Outcome (List Char) α)}
    (hx : Run.EndAlike (Cursor.Leaves source l) G x z)
    (hy : Run.EndAlike (Cursor.Leaves (u ++ source) l) G y z) :
    answer y = (answer x).map (Outcome.mapInput (Cursor.shift u)) := by
  cases hx with
  | success hr a _ _ =>
    cases hy with
    | success hr' _ _ _ =>
      rw [hr.eq, hr'.eq, ← Cursor.shift_leaving]
      rfl
  | failure hj location _ _ =>
    cases hy with
    | failure hj' _ _ _ =>
      rw [hj.eq, hj'.eq, ← Cursor.shift_leaving]
      rfl
  | halt h _ _ =>
    cases hy with
    | halt _ _ _ => rfl

variable {ρ : Type} {τ : ρ → Type}

/-- **Nothing before the cursor counts.**  From a place inside a text or at its end, and from
the same place in the text with the characters `u` put in front, a grammar gives the same
answer under the same guards, with every cursor in it moved on by the length of `u`. -/
theorem Rules.parse_shift (rules : Rules Primitive τ) (e : Expr Primitive τ α) (calls : Nat)
    (u source : Text) (k : Nat) (hk : k ≤ source.size) (s t : RunState)
    (hst : s.guards = t.guards) :
    Run.answer (rules.parse e calls { source := u ++ source, pos := u.size + k } t)
      = (Run.answer (rules.parse e calls { source := source, pos := k } s)).map
          (Outcome.mapInput (Cursor.shift u)) := by
  -- the characters from `k` on are what both cursors leave
  let l := Cursor.remainder { source := source, pos := k }
  have hl : l <:+ source.toList := Cursor.remainder_suffix _
  have hl' : l <:+ (u ++ source).toList := by
    rw [Array.toList_append]
    exact hl.trans (List.suffix_append _ _)
  have hc : Cursor.leaving source l = { source := source, pos := k } :=
    Cursor.leaving_remainder (c := { source := source, pos := k }) (Int.natCast_nonneg k)
      (Int.ofNat_le.mpr hk)
  have hc' : Cursor.leaving (u ++ source) l = { source := u ++ source, pos := u.size + k } := by
    rw [← Cursor.shift_leaving, hc]
    rfl
  have halike := rules.parse_leaving e calls hl s
  have halike' := rules.parse_alike (readsAlike_leaves hl') e calls
    ⟨List.suffix_refl l, rfl⟩ hst.symm (rfl : s.guards = s.guards)
  rw [hc] at halike
  rw [hc'] at halike'
  exact Run.answer_mapInput halike halike'

/-- Digits and then as many of the letter `x` as there are digits, under a guard. -/
def countedLetters : Rules Primitive (fun _ : Unit => List Text) := fun _ =>
  .guarded 0 (.flatMap (.run (.between '0' '9')) fun digits =>
    .sequence digits.size fun _ => .literal "x")

/-- The third letter is missing, and is reported to be missing three characters further on
if three more characters stand before the text. -/
theorem countedLetters_shift :
    Run.answer (countedLetters.parse (.ref ()) 1
        ({ source := #['\n', '1', 'x', 'a', '1', '2', '3', 'x', 'x', 'y'], pos := 4 } : Cursor)
        { guards := #[{ maxDepth := 1 }] })
      = .ok (.failure
          { source := #['\n', '1', 'x', 'a', '1', '2', '3', 'x', 'x', 'y'], pos := 9 } 1) :=
  (countedLetters.parse_shift (.ref ()) 1 #['\n', '1', 'x']
    #['a', '1', '2', '3', 'x', 'x', 'y'] 1 (by decide) { guards := #[{ maxDepth := 1 }] }
    { guards := #[{ maxDepth := 1 }] } rfl).trans rfl

end Descent
