import Descent.Depth.Block

/-!
# Sections are counted by their guard

A guard that was made with no active entry, or that stands at any depth for other reasons, counts
the sections that a block opens.  `Block.Begins` says which part of a block is begun when the
block is run, and under which guard; `Block.Reaches` follows such steps, and counts the sections
that are open on the way.  Only the step into a section enters the guard, and whatever has ended
before a step has left the guard as it was, by a completion, by an exception or by a refusal
(`Block.run_snd`).  So wherever a run has come to, the guard is the one of the beginning with one
more entry for each open section (`Block.Reaches.guard_eq`).

With this, what a section does is read off its place: it is entered if the depth of the
beginning and the number of sections around it are together below the limit.
-/

namespace Descent

/-! ## A guard with more entries -/

namespace DepthGuard

/-- The guard with so many more active entries. -/
def deeper (g : DepthGuard) (k : Nat) : DepthGuard :=
  { g with currentDepth := g.currentDepth + k }

variable (g : DepthGuard) {k n : Nat}

@[simp] theorem maxDepth_deeper : (g.deeper k).maxDepth = g.maxDepth := rfl

@[simp] theorem currentDepth_deeper : (g.deeper k).currentDepth = g.currentDepth + k := rfl

@[simp] theorem deeper_zero : g.deeper 0 = g := by
  simp [deeper]

@[simp] theorem deeper_deeper : (g.deeper k).deeper n = g.deeper (k + n) := by
  simp [deeper, Int.add_assoc]

@[simp] theorem leave_deeper_succ : (g.deeper (k + 1)).leave = g.deeper k := by
  simp only [deeper, leave, mk.injEq, true_and]
  omega

variable {g}

theorem enter_deeper_of_lt (h : g.currentDepth + k < g.maxDepth) :
    (g.deeper k).enter = .ok (g.deeper (k + 1)) := by
  rw [enter_of_lt (g := g.deeper k) h]
  simp [deeper, Int.add_assoc]

theorem enter_eq_ok_deeper (h : g.currentDepth < g.maxDepth) : g.enter = .ok (g.deeper 1) :=
  enter_of_lt h

/-- A guard that is entered has one more entry inside. -/
theorem eq_deeper_of_enter {inside : DepthGuard} (h : g.enter = .ok inside) :
    inside = g.deeper 1 :=
  (of_enter_eq_ok h).2

/-- There is room for so many entries, one inside the other. -/
def Fits (g : DepthGuard) (n : Nat) : Prop := n = 0 ∨ g.currentDepth + n ≤ g.maxDepth

theorem fits_succ_iff :
    g.Fits (n + 1) ↔ g.currentDepth < g.maxDepth ∧ (g.deeper 1).Fits n := by
  simp only [Fits, currentDepth_deeper, maxDepth_deeper]
  omega

/-- Entries for which there is room are all made, and then left. -/
theorem nest_of_fits (h : g.Fits n) : g.nest n = (.ok (g.currentDepth + n), g) := by
  induction n generalizing g with
  | zero => rw [nest, Int.natCast_zero, Int.add_zero]
  | succ n ih =>
    obtain ⟨hlt, hrest⟩ := fits_succ_iff.mp h
    rw [nest, enter_eq_ok_deeper hlt]
    simp only [ih hrest, leave_deeper_succ, deeper_zero, currentDepth_deeper]
    congr 2
    omega

/-- Otherwise one of them is refused, and those before it are left. -/
theorem nest_of_not_fits (h : ¬ g.Fits n) : g.nest n = (.error ⟨g.maxDepth⟩, g) := by
  induction n generalizing g with
  | zero => exact absurd (.inl rfl) h
  | succ n ih =>
    rw [nest]
    rcases Int.lt_or_le g.currentDepth g.maxDepth with hlt | hle
    · have hrest : ¬ (g.deeper 1).Fits n := fun hrest => h (fits_succ_iff.mpr ⟨hlt, hrest⟩)
      rw [enter_eq_ok_deeper hlt]
      simp only [ih hrest, leave_deeper_succ, deeper_zero, maxDepth_deeper]
    · rw [enter_of_le hle]

end DepthGuard

namespace Depth
namespace Block

/-! ## Where a run comes to -/

/-- Running one block begins another one, which is a part of it, and opens so many sections for
that: one for the body of a section, and none in every other case. -/
inductive Begins : Block → DepthGuard → Nat → Block → DepthGuard → Prop where
  | body {b : Block} {g inside : DepthGuard} (h : g.enter = .ok inside) :
      Begins (.enclose b) g 1 b inside
  | first {a b : Block} {g : DepthGuard} : Begins (.andThen a b) g 0 a g
  | second {a b : Block} {g after : DepthGuard} (h : a.run g = (.completed, after)) :
      Begins (.andThen a b) g 0 b after
  | attempted {b : Block} {catches : Thrown → Bool} {handler : Thrown → Block}
      {g : DepthGuard} : Begins (.attempt b catches handler) g 0 b g
  | handler {b : Block} {catches : Thrown → Bool} {handler : Thrown → Block}
      {g after : DepthGuard} {t : Thrown} (h : b.run g = (.threw t, after))
      (ht : catches t = true) : Begins (.attempt b catches handler) g 0 (handler t) after

/-- On the run of one block under a guard there is a moment at which another one is begun under a
guard, and so many of the sections of the first block are open around it. -/
inductive Reaches : Block → DepthGuard → Nat → Block → DepthGuard → Prop where
  | start {b : Block} {g : DepthGuard} : Reaches b g 0 b g
  | step {b b' b'' : Block} {g g' g'' : DepthGuard} {j k : Nat} (h : Reaches b g k b' g')
      (hstep : Begins b' g' j b'' g'') : Reaches b g (k + j) b'' g''

variable {b b' body : Block} {g g' : DepthGuard} {j k n : Nat}

/-- **One step.**  The guard has one more entry for each section that is opened. -/
theorem Begins.guard_eq (h : Begins b g k b' g') : g' = g.deeper k := by
  cases h with
  | body h => exact DepthGuard.eq_deeper_of_enter h
  | first => exact (DepthGuard.deeper_zero g).symm
  | attempted => exact (DepthGuard.deeper_zero g).symm
  | @second a _ _ _ h =>
    have hleft := a.run_snd g
    rw [h] at hleft
    exact hleft.trans (DepthGuard.deeper_zero g).symm
  | @handler a _ _ _ _ _ h _ =>
    have hleft := a.run_snd g
    rw [h] at hleft
    exact hleft.trans (DepthGuard.deeper_zero g).symm

/-- **A run.**  The guard has one more entry for each section that is open. -/
theorem Reaches.guard_eq (h : Reaches b g k b' g') : g' = g.deeper k := by
  induction h with
  | start => exact (DepthGuard.deeper_zero _).symm
  | step _ hstep ih => rw [hstep.guard_eq, ih, DepthGuard.deeper_deeper]

theorem Reaches.trans {g'' : DepthGuard} {b'' : Block} (h : Reaches b g j b' g')
    (h' : Reaches b' g' k b'' g'') : Reaches b g (j + k) b'' g'' := by
  induction h' with
  | start => exact h
  | step _ hstep ih =>
    rw [← Nat.add_assoc]
    exact (ih h).step hstep

theorem Begins.reaches (h : Begins b g k b' g') : Reaches b g k b' g' := by
  have hstep := Reaches.start.step h
  rwa [Nat.zero_add] at hstep

/-! ## What a section does -/

/-- A section that is begun with `k` open ones around it runs its body if the limit is not
reached. -/
theorem begins_body_iff :
    (∃ inside, Begins (.enclose body) (g.deeper k) 1 body inside) ↔
      g.currentDepth + k < g.maxDepth := by
  constructor
  · rintro ⟨inside, h⟩
    cases h with
    | body h => exact (DepthGuard.of_enter_eq_ok h).1
  · intro h
    exact ⟨_, .body (DepthGuard.enter_deeper_of_lt h)⟩

/-- It ends as its body then does, and leaves the guard as it was. -/
theorem run_enclose_of_lt (h : g.currentDepth + k < g.maxDepth) :
    (enclose body).run (g.deeper k) = ((body.run (g.deeper (k + 1))).1, g.deeper k) := by
  rw [run_enclose_of_enter (DepthGuard.enter_deeper_of_lt h), run_snd,
    DepthGuard.leave_deeper_succ]

/-- Sections one inside the other for which there is room end as the body of the innermost. -/
theorem run_nested_of_fits (h : g.Fits n) :
    (nested n body).run g = ((body.run (g.deeper n)).1, g) := by
  induction n generalizing g with
  | zero =>
    rw [nested, DepthGuard.deeper_zero]
    exact Prod.ext rfl (run_snd body g)
  | succ n ih =>
    obtain ⟨hlt, hrest⟩ := DepthGuard.fits_succ_iff.mp h
    rw [nested, run_enclose_of_enter (DepthGuard.enter_eq_ok_deeper hlt), ih hrest,
      DepthGuard.leave_deeper_succ, DepthGuard.deeper_zero, DepthGuard.deeper_deeper,
      Nat.add_comm]

/-- Otherwise they end with the refusal of one of them. -/
theorem run_nested_of_not_fits (h : ¬ g.Fits n) :
    (nested n body).run g = (.threw (.refusal ⟨g.maxDepth⟩), g) := by
  induction n generalizing g with
  | zero => exact absurd (.inl rfl) h
  | succ n ih =>
    rw [nested]
    rcases Int.lt_or_le g.currentDepth g.maxDepth with hlt | hle
    · have hrest : ¬ (g.deeper 1).Fits n := fun hrest =>
        h (DepthGuard.fits_succ_iff.mpr ⟨hlt, hrest⟩)
      rw [run_enclose_of_enter (DepthGuard.enter_eq_ok_deeper hlt), ih hrest,
        DepthGuard.leave_deeper_succ, DepthGuard.deeper_zero, DepthGuard.maxDepth_deeper]
    · exact run_enclose_of_le hle

/-! ## Where exceptions come from -/

/-- On the way the run has come to where `t` is raised, or to a section for which there is no
room, and `t` is the refusal of it. -/
def Origin (b : Block) (g : DepthGuard) (t : Thrown) : Prop :=
  ∃ k g', Reaches b g k (.raise t) g' ∨
    ∃ body, Reaches b g k (.enclose body) g' ∧ t = .refusal ⟨g.maxDepth⟩ ∧
      g.maxDepth ≤ g.currentDepth + k

/-- What comes out of a part has come from where the part has it from. -/
theorem Begins.origin {t : Thrown} (h : Begins b g j b' g') (ht : b'.Origin g' t) :
    b.Origin g t := by
  -- seen from the part, the sections that the step has opened are entries of its guard
  obtain ⟨k, g'', hraise | ⟨body, hbody, heq, hle⟩⟩ := ht
  · exact ⟨j + k, g'', .inl (h.reaches.trans hraise)⟩
  · rw [h.guard_eq, DepthGuard.maxDepth_deeper] at heq hle
    rw [DepthGuard.currentDepth_deeper] at hle
    exact ⟨j + k, g'', .inr ⟨body, h.reaches.trans hbody, heq, by omega⟩⟩

/-- Nothing comes out of a block but what was raised in it, and refusals for want of room. -/
theorem origin_of_threw {t : Thrown} (h : (b.run g).1 = .threw t) : b.Origin g t := by
  -- by induction on the block, into the part that `t` has come out of last
  induction b generalizing g t with
  | done => cases h
  | raise t' =>
    obtain rfl := Ending.threw.inj h
    exact ⟨0, g, .inl .start⟩
  | enclose body ih =>
    rcases Int.lt_or_le g.currentDepth g.maxDepth with hlt | hle
    · have henter := DepthGuard.enter_eq_ok_deeper hlt
      rw [run_enclose_of_enter henter] at h
      exact (Begins.body henter).origin (ih h)
    · rw [run_enclose_of_le hle] at h
      obtain rfl := Ending.threw.inj h
      exact ⟨0, g, .inr ⟨body, .start, rfl, by omega⟩⟩
  | andThen first second ih₁ ih₂ =>
    rw [run] at h
    rcases hfirst : first.run g with ⟨ending, after⟩
    rw [hfirst] at h
    cases ending with
    | completed => exact (Begins.second hfirst).origin (ih₂ h)
    | threw t' =>
      obtain rfl := Ending.threw.inj h
      exact Begins.first.origin (ih₁ (congrArg Prod.fst hfirst))
  | attempt body catches handler ih ihHandler =>
    rw [run] at h
    rcases hbody : body.run g with ⟨ending, after⟩
    rw [hbody] at h
    cases ending with
    | completed => cases h
    | threw t' =>
      simp only at h
      split at h
      · next hcatches => exact (Begins.handler hbody hcatches).origin (ihHandler t' h)
      · obtain rfl := Ending.threw.inj h
        exact Begins.attempted.origin (ih (congrArg Prod.fst hbody))

/-! ## All together -/

/-- **Sections are counted by their guard.**  Whatever a block raises and catches, it leaves the
guard as it has found it, and so does each part of it that is begun on the way; and a part that
is begun with `k` sections open around it finds `k` more entries than the block.  So a section
runs its body exactly if the depth of the beginning and `k` are together below the limit, which
the guard can be asked beforehand; then it ends as the body does.  Otherwise the section is
refused, without a change to the guard; and nothing else comes out of a block than such refusals
and what was raised in it.

Of sections one inside the other the innermost is at the depth of the beginning and their number,
if there are none or this is not above the limit; otherwise one of them is refused. -/
theorem sections_counted (b : Block) (g : DepthGuard) :
    (b.run g).2 = g ∧
    (∀ k b' g', Reaches b g k b' g' → g' = g.deeper k ∧ (b'.run g').2 = g') ∧
    (∀ k body g', Reaches b g k (.enclose body) g' →
      ((∃ inside, Begins (.enclose body) g' 1 body inside) ↔ g.currentDepth + k < g.maxDepth) ∧
      (g'.isExceeded = true ↔ ¬ g.currentDepth + k < g.maxDepth) ∧
      (g.currentDepth + k < g.maxDepth →
        (enclose body).run g' = ((body.run (g.deeper (k + 1))).1, g')) ∧
      (¬ g.currentDepth + k < g.maxDepth →
        (enclose body).run g' = (.threw (.refusal ⟨g.maxDepth⟩), g'))) ∧
    (∀ t, (b.run g).1 = .threw t → b.Origin g t) ∧
    ∀ n : Nat,
      (n = 0 ∨ g.currentDepth + n ≤ g.maxDepth →
        g.nest n = (.ok (g.currentDepth + n), g) ∧
        ∀ body, (nested n body).run g = ((body.run (g.deeper n)).1, g)) ∧
      (¬ (n = 0 ∨ g.currentDepth + n ≤ g.maxDepth) →
        g.nest n = (.error ⟨g.maxDepth⟩, g) ∧
        ∀ body, (nested n body).run g = (.threw (.refusal ⟨g.maxDepth⟩), g)) := by
  refine ⟨run_snd b g, fun k b' g' h => ⟨h.guard_eq, run_snd b' g'⟩, fun k body g' h => ?_,
    fun t h => origin_of_threw h, fun n => ⟨fun h => ?_, fun h => ?_⟩⟩
  · obtain rfl := h.guard_eq
    refine ⟨begins_body_iff, ?_, run_enclose_of_lt, fun hle => ?_⟩
    · rw [DepthGuard.isExceeded_iff, DepthGuard.maxDepth_deeper, DepthGuard.currentDepth_deeper]
      omega
    · exact run_enclose_of_le (Int.not_lt.mp hle)
  · exact ⟨DepthGuard.nest_of_fits h, fun body => run_nested_of_fits h⟩
  · exact ⟨DepthGuard.nest_of_not_fits h, fun body => run_nested_of_not_fits h⟩

/-- A section with two sections in it, of which a refusal of the first is caught. -/
def twoInside : Block :=
  .enclose (.andThen (.attempt (.enclose .done) (fun _ => true) fun _ => .done) (.enclose .done))

/-- With a limit of one the second of them too is refused: the first, which was never entered,
has not been left either. -/
theorem twoInside_sections_counted :
    Reaches twoInside { maxDepth := 1 } 1 (.enclose .done) { maxDepth := 1, currentDepth := 1 } ∧
    (¬ ∃ inside, Begins (.enclose .done) { maxDepth := 1, currentDepth := 1 } 1 .done inside) ∧
    (enclose .done).run { maxDepth := 1, currentDepth := 1 }
      = (.threw (.refusal ⟨1⟩), { maxDepth := 1, currentDepth := 1 }) ∧
    (twoInside.run { maxDepth := 1 }).2 = { maxDepth := 1 } ∧
    DepthGuard.nest 2 { maxDepth := 1 } = (.error ⟨1⟩, { maxDepth := 1 }) := by
  have hreaches : Reaches twoInside { maxDepth := 1 } 1 (.enclose .done)
      { maxDepth := 1, currentDepth := 1 } :=
    (Reaches.start.step (.body rfl)).step (.second rfl)
  obtain ⟨hleft, -, hsection, -, hnest⟩ := sections_counted twoInside { maxDepth := 1 }
  obtain ⟨hbody, -, -, hrefused⟩ := hsection 1 .done _ hreaches
  exact ⟨hreaches, fun h => absurd (hbody.mp h) (by decide), hrefused (by decide), hleft,
    ((hnest 2).2 (by decide)).1⟩

end Block
end Depth
end Descent
