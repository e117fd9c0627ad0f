import Descent.Proofs.Consumption
import Descent.Proofs.GuardBalance
import Descent.Proofs.Reading
import Descent.Text.Render
import Mathlib.Data.List.OfFn

/-!
# What a choice reports

When all alternatives of a choice fail, the choice reports one of their failures as it is.  It
compares the locations and nothing else: it takes the first failure of those with the largest
location (`Parser.farthest`).

A location counts from the input of its own failure.  As long as the alternatives fail on the
input that they were all given, the largest location is therefore the farthest place in the
text.  But an alternative may have read something before a part of it fails, and then its
failure has an input further on and a location that counts from there.  So the place that a
choice reports may lie before a place that another alternative has reached
(`shadowedMismatch_not_farthest`).

What can be said is how far before.  The mark of the failure that is reported is not passed by
an alternative that failed on the same input or on one before it, and it is passed by any other
by no more than the inputs of the two lie apart (`Rules.firstOf_reports`).
-/

namespace Descent

variable {ι α : Type}

/-! ## The first of the largest locations -/

namespace Parser

/-- The first of some failures that has the largest location, with `best` before them. -/
def farthest (best : ι × Int) (failures : List (ι × Int)) : ι × Int :=
  failures.foldl (fun best f => if best.2 < f.2 then f else best) best

@[simp] theorem farthest_nil (best : ι × Int) : farthest best [] = best := rfl

theorem farthest_cons (best f : ι × Int) (failures : List (ι × Int)) :
    farthest best (f :: failures)
      = if best.2 < f.2 then farthest f failures else farthest best failures := by
  unfold farthest
  rw [List.foldl_cons]
  split <;> rfl

theorem farthest_cons_of_le {best f : ι × Int} (h : f.2 ≤ best.2) (failures : List (ι × Int)) :
    farthest best (f :: failures) = farthest best failures := by
  rw [farthest_cons, if_neg (Int.not_lt.mpr h)]

/-- Of two failures on one input the greater location counts. -/
theorem farthest_cons_same (i : ι) (l m : Int) (failures : List (ι × Int)) :
    farthest (i, l) ((i, m) :: failures) = farthest (i, max l m) failures := by
  rw [farthest_cons]
  split
  · next h => rw [Int.max_eq_right (Int.le_of_lt h)]
  · next h => rw [Int.max_eq_left (Int.not_lt.mp h)]

theorem le_farthest (best : ι × Int) (failures : List (ι × Int)) :
    ∀ f ∈ best :: failures, f.2 ≤ (farthest best failures).2 := by
  induction failures generalizing best with
  | nil => exact List.forall_mem_singleton.mpr (Int.le_refl _)
  | cons f failures ih =>
    rw [farthest_cons]
    split
    · next hlt =>
      have hf := ih f
      refine List.forall_mem_cons.mpr ⟨?_, hf⟩
      exact Int.le_trans (Int.le_of_lt hlt) (hf f List.mem_cons_self)
    · next hle =>
      obtain ⟨hbest, hrest⟩ := List.forall_mem_cons.mp (ih best)
      refine List.forall_mem_cons.mpr ⟨hbest, List.forall_mem_cons.mpr ⟨?_, hrest⟩⟩
      exact Int.le_trans (Int.not_lt.mp hle) hbest

/-- Every failure before it has a smaller location. -/
theorem exists_farthest (best : ι × Int) (failures : List (ι × Int)) :
    ∃ earlier later, best :: failures = earlier ++ farthest best failures :: later ∧
      ∀ f ∈ earlier, f.2 < (farthest best failures).2 := by
  induction failures generalizing best with
  | nil => exact ⟨[], [], rfl, List.forall_mem_nil _⟩
  | cons f failures ih =>
    rw [farthest_cons]
    split
    · next hlt =>
      obtain ⟨earlier, later, hsplit, hearlier⟩ := ih f
      have hle := le_farthest f failures f List.mem_cons_self
      refine ⟨best :: earlier, later, by rw [hsplit, List.cons_append], ?_⟩
      exact List.forall_mem_cons.mpr ⟨Int.lt_of_lt_of_le hlt hle, hearlier⟩
    · next hle =>
      obtain ⟨earlier, later, hsplit, hearlier⟩ := ih best
      cases earlier with
      | nil =>
        obtain ⟨hbest, -⟩ := List.cons.inj hsplit
        exact ⟨[], f :: failures, by rw [← hbest, List.nil_append], List.forall_mem_nil _⟩
      | cons b earlier =>
        obtain ⟨rfl, hrest⟩ := List.cons.inj hsplit
        obtain ⟨hb, hearlier⟩ := List.forall_mem_cons.mp hearlier
        refine ⟨best :: f :: earlier, later, congrArg (best :: f :: ·) hrest, ?_⟩
        exact List.forall_mem_cons.mpr ⟨hb, List.forall_mem_cons.mpr
          ⟨Int.lt_of_le_of_lt (Int.not_lt.mp hle) hb, hearlier⟩⟩

theorem farthest_append (best : ι × Int) (failures more : List (ι × Int)) :
    farthest best (failures ++ more) = farthest (farthest best failures) more :=
  List.foldl_append

theorem farthest_mem (best : ι × Int) (failures : List (ι × Int)) :
    farthest best failures ∈ best :: failures := by
  obtain ⟨earlier, later, hsplit, -⟩ := exists_farthest best failures
  rw [hsplit]
  exact List.mem_append_right _ List.mem_cons_self

theorem farthest_eq_self {best : ι × Int} {failures : List (ι × Int)}
    (h : ∀ f ∈ failures, f.2 ≤ best.2) : farthest best failures = best := by
  induction failures with
  | nil => rfl
  | cons f failures ih =>
    obtain ⟨hf, hrest⟩ := List.forall_mem_cons.mp h
    rw [farthest_cons_of_le hf, ih hrest]

/-- Only one failure has none of its size before it and none that is larger after it. -/
theorem farthest_eq_of_split {best far : ι × Int} {failures earlier later : List (ι × Int)}
    (h : best :: failures = earlier ++ far :: later) (hearlier : ∀ f ∈ earlier, f.2 < far.2)
    (hlater : ∀ f ∈ later, f.2 ≤ far.2) : farthest best failures = far := by
  cases earlier with
  | nil =>
    obtain ⟨rfl, rfl⟩ := List.cons.inj h
    exact farthest_eq_self hlater
  | cons b earlier =>
    obtain ⟨rfl, rfl⟩ := List.cons.inj h
    have hlt := hearlier _ (farthest_mem best earlier)
    rw [List.append_eq, farthest_append, farthest_cons, if_pos hlt]
    exact farthest_eq_self hlater

/-- The farthest of some failures may be found first and compared with `best` then. -/
theorem farthest_cons_eq (best f : ι × Int) (failures : List (ι × Int)) :
    farthest best (f :: failures)
      = if best.2 < (farthest f failures).2 then farthest f failures else best := by
  have hle := le_farthest f failures
  split
  · next hlt =>
    obtain ⟨earlier, later, hsplit, hearlier⟩ := exists_farthest f failures
    refine farthest_eq_of_split (congrArg (best :: ·) hsplit)
      (List.forall_mem_cons.mpr ⟨hlt, hearlier⟩) fun g hg => hle g ?_
    rw [hsplit]
    exact List.mem_append_right _ (List.mem_cons_of_mem _ hg)
  · next hge =>
    exact farthest_eq_self fun g hg => Int.le_trans (hle g hg) (Int.not_lt.mp hge)

/-! ## The failure of a choice -/

variable {G : Array DepthGuard} {i j : ι} {l : Int} {p : Parser ι α} {ps : List (Parser ι α)}
  {failures : List (ι × Int)}

theorem fails_oneOfFrom (h : List.Forall₂ (fun p f => Fails p G i f.1 f.2) ps failures)
    (best : ι × Int) :
    (oneOfFrom best.1 best.2 ps).Fails G i (farthest best failures).1
      (farthest best failures).2 := by
  induction h generalizing best with
  | nil => exact fun s hs => ⟨s, rfl, hs⟩
  | @cons p f ps failures hp _ ih =>
    intro s hs
    obtain ⟨s', h₁, hs'⟩ := hp s hs
    rw [oneOfFrom_cons, h₁, farthest_cons]
    simp only
    split
    · exact ih f s' hs'
    · exact ih best s' hs'

/-- If all alternatives fail, the choice fails with the farthest of their failures. -/
theorem fails_oneOf (hp : p.Fails G i j l)
    (h : List.Forall₂ (fun p f => Fails p G i f.1 f.2) ps failures) :
    (oneOf p ps).Fails G i (farthest (j, l) failures).1 (farthest (j, l) failures).2 := by
  intro s hs
  obtain ⟨s', h₁, hs'⟩ := hp s hs
  rw [oneOf_apply, h₁]
  exact fails_oneOfFrom h (j, l) s' hs'

end Parser

/-! ## Marks -/

/-- A failure with the larger location lies before another by no more than its input does. -/
theorem Render.mark_le_add {c d : Cursor} {l m : Int} (hs : d.source = c.source) (hm : m ≤ l) :
    mark d m ≤ mark c l + max 0 (d.pos - c.pos) := by
  unfold mark
  rw [hs]
  simp only
  split <;> split <;> omega

/-! ## Grammars -/

section Grammars

variable {ρ : Type} {τ : ρ → Type} (rules : Rules Primitive τ)

/-- **A choice reports the first of the largest locations.**  Take alternatives that all fail
on a cursor inside its text or at its end.  Then the choice of them fails, with one of their
failures as it is: those of the alternatives before have smaller locations, and those of the
alternatives after have none that is larger.  The mark of that failure is passed by the mark of
another one by no more than its input is by the input of the other, so it is not passed at all
by one whose input stands on the same place or before. -/
theorem Rules.firstOf_reports (p : Expr Primitive τ α) (ps : List (Expr Primitive τ α))
    (calls : Nat) (c : Cursor) (h₀ : 0 ≤ c.pos) (h₁ : c.pos ≤ c.source.size) (s : RunState)
    (f : Cursor × Int) (failures : List (Cursor × Int))
    (h : List.Forall₂ (fun e f => ∃ s', rules.parse e calls c s = .ok (.failure f.1 f.2) s')
      (p :: ps) (f :: failures)) :
    ∃ j l s' earlier later,
      rules.parse (.firstOf p ps) calls c s = .ok (.failure j l) s' ∧
      f :: failures = earlier ++ (j, l) :: later ∧
      (∀ f ∈ earlier, f.2 < l) ∧ (∀ f ∈ later, f.2 ≤ l) ∧
      ∀ g ∈ f :: failures, Render.mark g.1 g.2 ≤ Render.mark j l + max 0 (g.1.pos - j.pos) := by
  obtain ⟨hp, hps⟩ := List.forall₂_cons.mp h
  have hfails : ∀ {e : Expr Primitive τ α} {f : Cursor × Int},
      (∃ s', rules.parse e calls c s = .ok (.failure f.1 f.2) s') →
        (rules.parse e calls).Fails s.guards c f.1 f.2 := by
    rintro e f ⟨s', hs'⟩
    exact (rules.parse_steady e calls).yields hs'
  have hsource : ∀ g ∈ f :: failures, g.1.source = c.source := by
    intro g hg
    obtain ⟨k, hk, rfl⟩ := List.getElem_of_mem hg
    have hk' : k < (p :: ps).length := by rwa [h.length_eq]
    obtain ⟨s', hs'⟩ := h.get hk' hk
    exact ((rules.parse_ahead _ calls c h₀ h₁ s).2 _ _ _ hs').source_eq
  -- the choice is a fold over the failures
  have hchoice : (rules.parse (.firstOf p ps) calls).Fails s.guards c
      (Parser.farthest f failures).1 (Parser.farthest f failures).2 := by
    rw [Rules.parse, Expr.eval_firstOf]
    refine Parser.fails_oneOf (hfails hp) ?_
    exact List.forall₂_map_left_iff.mpr (hps.imp fun _ _ => hfails)
  obtain ⟨s', hs', _⟩ := hchoice s rfl
  obtain ⟨earlier, later, hsplit, hearlier⟩ := Parser.exists_farthest f failures
  have hle := Parser.le_farthest f failures
  have hmem : ∀ g ∈ Parser.farthest f failures :: later, g ∈ f :: failures := fun g hg => by
    rw [hsplit]
    exact List.mem_append_right _ hg
  refine ⟨_, _, s', earlier, later, hs', hsplit, hearlier,
    fun g hg => hle g (hmem g (List.mem_cons_of_mem _ hg)), fun g hg => ?_⟩
  have hfar := hsource _ (hmem _ List.mem_cons_self)
  exact Render.mark_le_add ((hsource g hg).trans hfar.symm) (hle g hg)

end Grammars

/-- Two words of which the second one is read in two parts. -/
def wordOrParts : Expr Primitive (fun _ : Empty => Unit) Text :=
  .firstOf (.literal "ax") [.preceded (.literal "ab") (.literal "c")]

/-- On `abx` the first word fails at the start, with the location 2, and the second one
fails after `ab`, with the location 1. -/
theorem wordOrParts_reports :
    ∃ j l s' earlier later,
      noRules.parse wordOrParts 0 { source := #['a', 'b', 'x'] } {} = .ok (.failure j l) s' ∧
      [({ source := #['a', 'b', 'x'] }, 2), ({ source := #['a', 'b', 'x'], pos := 2 }, 1)]
        = earlier ++ (j, l) :: later ∧
      (∀ f ∈ earlier, f.2 < l) ∧ (∀ f ∈ later, f.2 ≤ l) ∧
      ∀ g ∈ [({ source := #['a', 'b', 'x'] }, 2),
          (({ source := #['a', 'b', 'x'], pos := 2 } : Cursor), (1 : Int))],
        Render.mark g.1 g.2 ≤ Render.mark j l + max 0 (g.1.pos - j.pos) :=
  noRules.firstOf_reports (.literal "ax") [.preceded (.literal "ab") (.literal "c")] 0
    { source := #['a', 'b', 'x'] } (by decide) (by decide) {} _ _
    (.cons ⟨_, rfl⟩ (.cons ⟨_, rfl⟩ .nil))

/-- On `abx` the choice of the two words reports the mismatch of the first one, at the
second character, although the second word has got as far as the third. -/
theorem shadowedMismatch_not_farthest :
    ∃ j l s j' l' s', noRules.parse wordOrParts 0 ({ source := #['a', 'b', 'x'] } : Cursor) {}
        = .ok (.failure j l) s ∧
      noRules.parse (.preceded (.literal "ab") (.literal "c")) 0
          ({ source := #['a', 'b', 'x'] } : Cursor) {}
        = .ok (.failure j' l' : Outcome Cursor Text) s' ∧
      Render.mark j l = 1 ∧ Render.mark j' l' = 2 :=
  ⟨_, _, _, _, _, _, rfl, rfl, rfl, rfl⟩

end Descent
