import Descent.Proofs.GuardBalance
import Descent.Proofs.Sequencing
import Mathlib.Data.List.OfFn

/-!
# What a parser reads under given guards

A parser yields an outcome under the guards `G` if every run on the input from a state with
these guards ends in that outcome and leaves the guards as they were (`Parser.Yields`).
The record has no part in it, so what one step yields can be put together with what the
next one yields, and a run over several combinators is a chain of such facts.

A parser reads when it yields a success (`Parser.Reads`), and it fails when it yields a
failure (`Parser.Fails`).  Most of the time only the fact of a failure counts, and not its
input and location; then the parser is said to refuse (`Parser.Refuses`).  Each combinator
has its rules for all three.  A separated repetition has its own account of how it goes on
(`Parser.ItemsFrom`), since it alone carries the remainder of an earlier step along.
-/

namespace Descent

variable {ι α β γ : Type}

namespace Parser

/-- Every run of `p` on `i` from the guards `G` ends in the outcome `o` and leaves `G`. -/
def Yields (p : Parser ι α) (G : Array DepthGuard) (i : ι) (o : Outcome ι α) : Prop :=
  ∀ s : RunState, s.guards = G → ∃ s', p i s = .ok o s' ∧ s'.guards = G

/-- Under the guards `G` the parser reads the value `a` from `i` and leaves `r`. -/
abbrev Reads (p : Parser ι α) (G : Array DepthGuard) (i r : ι) (a : α) : Prop :=
  p.Yields G i (.success r a)

/-- Under the guards `G` the parser fails on `i`, with a failure at the location `l` of `j`. -/
abbrev Fails (p : Parser ι α) (G : Array DepthGuard) (i j : ι) (l : Int) : Prop :=
  p.Yields G i (.failure j l)

/-- Under the guards `G` the parser fails on `i`, with whatever failure. -/
def Refuses (p : Parser ι α) (G : Array DepthGuard) (i : ι) : Prop :=
  ∃ j l, p.Yields G i (.failure j l)

variable {p : Parser ι α} {q : Parser ι β} {G : Array DepthGuard} {i j r m : ι} {a : α}
  {b : β} {l : Int}

/-- One input has one outcome. -/
theorem Yields.unique {o o' : Outcome ι α} (h : p.Yields G i o) (h' : p.Yields G i o') :
    o = o' := by
  obtain ⟨s, hs, -⟩ := h { guards := G } rfl
  obtain ⟨t, ht, -⟩ := h' { guards := G } rfl
  rw [hs] at ht
  exact (EStateM.Result.ok.inj ht).1

/-- What a steady parser answers once, it yields. -/
theorem Steady.yields (hp : p.Steady) {s s' : RunState}
    {o : Outcome ι α} (h : p i s = .ok o s') : p.Yields s.guards i o := by
  intro t ht
  have hanswer := hp.answer_congr i ht
  rw [h] at hanswer
  cases hx : p i t with
  | ok o' t' =>
    rw [hx] at hanswer
    obtain rfl : o' = o := Except.ok.inj hanswer
    exact ⟨t', rfl, (hp.guards_of_ok hx).trans ht⟩
  | error e t' =>
    rw [hx] at hanswer
    exact absurd hanswer (by simp [Run.answer])

/-! ## One step after the other -/

theorem reads_succeed (a : α) : (succeed a : Parser ι α).Reads G i i a :=
  fun s hs => ⟨s, rfl, hs⟩

/-- What comes after a success is the outcome of the whole. -/
theorem Reads.flatMap {f : α → Parser ι β} {o : Outcome ι β} (h : p.Reads G i m a)
    (hf : (f a).Yields G m o) : (flatMap p f).Yields G i o := by
  intro s hs
  obtain ⟨s', h₁, hs'⟩ := h s hs
  rw [flatMap_apply, h₁]
  exact hf s' hs'

/-- Nothing comes after a failure. -/
theorem Fails.flatMap {f : α → Parser ι β} (h : p.Fails G i j l) :
    (flatMap p f).Fails G i j l := by
  intro s hs
  obtain ⟨s', h₁, hs'⟩ := h s hs
  rw [flatMap_apply, h₁]
  exact ⟨s', rfl, hs'⟩

theorem Refuses.flatMap {f : α → Parser ι β} (h : p.Refuses G i) :
    (flatMap p f).Refuses G i := by
  obtain ⟨j, l, h⟩ := h
  exact ⟨j, l, Fails.flatMap h⟩

theorem Refuses.flatMap_next {f : α → Parser ι β} (h : p.Reads G i m a)
    (hf : (f a).Refuses G m) : (Parser.flatMap p f).Refuses G i := by
  obtain ⟨j, l, hf⟩ := hf
  exact ⟨j, l, h.flatMap hf⟩

theorem Reads.map (f : α → β) (h : p.Reads G i r a) : (map f p).Reads G i r (f a) := by
  rw [map_eq_flatMap]
  exact h.flatMap (reads_succeed (f a))

theorem Fails.map (f : α → β) (h : p.Fails G i j l) : (map f p).Fails G i j l := by
  rw [map_eq_flatMap]
  exact h.flatMap

theorem Refuses.map (f : α → β) (h : p.Refuses G i) : (map f p).Refuses G i := by
  obtain ⟨j, l, h⟩ := h
  exact ⟨j, l, Fails.map f h⟩

theorem Reads.both (h : p.Reads G i m a) (h' : q.Reads G m r b) :
    (both p q).Reads G i r (a, b) :=
  h.flatMap (h'.map _)

theorem Fails.both (h : p.Fails G i j l) : (both p q).Fails G i j l := h.flatMap

theorem Fails.both_next (h : p.Reads G i m a) (h' : q.Fails G m j l) :
    (Parser.both p q).Fails G i j l :=
  h.flatMap (h'.map _)

theorem Refuses.both (h : p.Refuses G i) : (both p q).Refuses G i := h.flatMap

theorem Refuses.both_next (h : p.Reads G i m a) (h' : q.Refuses G m) :
    (Parser.both p q).Refuses G i :=
  Refuses.flatMap_next h (h'.map _)

theorem Reads.preceded (h : p.Reads G i m a) (h' : q.Reads G m r b) :
    (preceded p q).Reads G i r b :=
  (h.both h').map fun ab : α × β => ab.2

theorem Reads.terminated (h : p.Reads G i m a) (h' : q.Reads G m r b) :
    (terminated p q).Reads G i r a :=
  (h.both h').map fun ab : α × β => ab.1

theorem Fails.preceded (h : p.Fails G i j l) : (preceded p q).Fails G i j l := h.both.map _

theorem Fails.preceded_next (h : p.Reads G i m a) (h' : q.Fails G m j l) :
    (Parser.preceded p q).Fails G i j l :=
  (Fails.both_next h h').map _

theorem Fails.terminated (h : p.Fails G i j l) : (terminated p q).Fails G i j l :=
  h.both.map _

theorem Fails.terminated_next (h : p.Reads G i m a) (h' : q.Fails G m j l) :
    (Parser.terminated p q).Fails G i j l :=
  (Fails.both_next h h').map _

theorem Reads.optional (h : p.Reads G i r a) : (optional p).Reads G i r (some a) := by
  intro s hs
  obtain ⟨s', h₁, hs'⟩ := h s hs
  rw [optional_apply, h₁]
  exact ⟨s', rfl, hs'⟩

theorem Refuses.optional (h : p.Refuses G i) : (optional p).Reads G i i none := by
  obtain ⟨j, l, h⟩ := h
  intro s hs
  obtain ⟨s', h₁, hs'⟩ := h s hs
  rw [optional_apply, h₁]
  exact ⟨s', rfl, hs'⟩

/-! ## Sequences -/

section Sequence

variable {ps : List (Parser ι α)} {as : List α}

theorem Reads.sequence_cons (h : p.Reads G i m a) (hps : (Parser.sequence ps).Reads G m r as) :
    (Parser.sequence (p :: ps)).Reads G i r (a :: as) := by
  rw [Parser.sequence_cons]
  exact (h.both hps).map fun ab => ab.1 :: ab.2

theorem Refuses.sequence_cons (h : p.Refuses G i) : (Parser.sequence (p :: ps)).Refuses G i := by
  rw [Parser.sequence_cons]
  exact h.both.map fun ab => ab.1 :: ab.2

theorem Refuses.sequence_cons_next (h : p.Reads G i m a)
    (hps : (Parser.sequence ps).Refuses G m) : (Parser.sequence (p :: ps)).Refuses G i := by
  rw [Parser.sequence_cons]
  exact (Refuses.both_next h hps).map fun ab => ab.1 :: ab.2

end Sequence

/-! ## Choice -/

section Choice

variable {ps : List (Parser ι α)}

theorem Reads.oneOfFrom (j : ι) (l : Int) (h : p.Reads G i r a) :
    (oneOfFrom j l (p :: ps)).Reads G i r a := by
  intro s hs
  obtain ⟨s', h₁, hs'⟩ := h s hs
  rw [oneOfFrom_cons, h₁]
  exact ⟨s', rfl, hs'⟩

/-- A refused alternative leaves the choice to the others, with one failure or the other
to report in the end. -/
theorem Refuses.yields_oneOfFrom {o : Outcome ι α → Prop} (h : p.Refuses G i)
    (hps : ∀ j l, ∃ x, (oneOfFrom j l ps).Yields G i x ∧ o x) (j : ι) (l : Int) :
    ∃ x, (oneOfFrom j l (p :: ps)).Yields G i x ∧ o x := by
  obtain ⟨j', l', h⟩ := h
  by_cases hl : l < l'
  · obtain ⟨x, hx, ho⟩ := hps j' l'
    refine ⟨x, fun s hs => ?_, ho⟩
    obtain ⟨s', h₁, hs'⟩ := h s hs
    rw [oneOfFrom_cons, h₁]
    simp only [if_pos hl]
    exact hx s' hs'
  · obtain ⟨x, hx, ho⟩ := hps j l
    refine ⟨x, fun s hs => ?_, ho⟩
    obtain ⟨s', h₁, hs'⟩ := h s hs
    rw [oneOfFrom_cons, h₁]
    simp only [if_neg hl]
    exact hx s' hs'

theorem Refuses.reads_oneOfFrom (h : p.Refuses G i)
    (hps : ∀ j l, (oneOfFrom j l ps).Reads G i r a) (j : ι) (l : Int) :
    (oneOfFrom j l (p :: ps)).Reads G i r a := by
  obtain ⟨x, hx, rfl⟩ := h.yields_oneOfFrom (o := fun x => x = .success r a)
    (fun j l => ⟨_, hps j l, rfl⟩) j l
  exact hx

theorem refuses_oneOfFrom_nil (j : ι) (l : Int) :
    (oneOfFrom j l ([] : List (Parser ι α))).Refuses G i :=
  ⟨j, l, fun s hs => ⟨s, rfl, hs⟩⟩

theorem Reads.oneOf (h : p.Reads G i r a) : (oneOf p ps).Reads G i r a := by
  intro s hs
  obtain ⟨s', h₁, hs'⟩ := h s hs
  rw [oneOf_apply, h₁]
  exact ⟨s', rfl, hs'⟩

theorem Refuses.reads_oneOf (h : p.Refuses G i)
    (hps : ∀ j l, (Parser.oneOfFrom j l ps).Reads G i r a) : (oneOf p ps).Reads G i r a := by
  obtain ⟨j, l, h⟩ := h
  intro s hs
  obtain ⟨s', h₁, hs'⟩ := h s hs
  rw [oneOf_apply, h₁]
  exact hps j l s' hs'

/-- A choice reads what an alternative reads if those before it refuse. -/
theorem reads_oneOf_append {p₀ : Parser ι α} (earlier later : List (Parser ι α))
    (h₀ : p₀.Refuses G i) (hearlier : ∀ e ∈ earlier, e.Refuses G i) (h : p.Reads G i r a) :
    (Parser.oneOf p₀ (earlier ++ p :: later)).Reads G i r a := by
  refine h₀.reads_oneOf fun j l => ?_
  induction earlier generalizing j l with
  | nil => exact h.oneOfFrom j l
  | cons e earlier ih =>
    obtain ⟨he, hrest⟩ := List.forall_mem_cons.mp hearlier
    exact he.reads_oneOfFrom (fun j l => ih hrest j l) j l

end Choice

/-! ## Guards -/

/-- The guard at a place of a table. -/
def guardOf (G : Array DepthGuard) (g : Nat) : DepthGuard :=
  RunState.guardAt { guards := G } g

theorem guardAt_eq_guardOf {s : RunState} (hs : s.guards = G) (g : Nat) :
    s.guardAt g = guardOf G g :=
  RunState.guardAt_congr (t := { guards := G }) hs g

theorem Yields.guarded {g : Nat} {inside : DepthGuard} {o : Outcome ι α}
    (he : (guardOf G g).enter = .ok inside)
    (h : p.Yields (G.setIfInBounds g inside) i o) : (guarded g p).Yields G i o := by
  intro s hs
  have hg : (s.guardAt g).enter = .ok inside := by
    rw [guardAt_eq_guardOf hs]
    exact he
  have hin : (s.setGuard g inside).guards = G.setIfInBounds g inside := by
    rw [RunState.guards_setGuard, hs]
  obtain ⟨s', h₁, hs'⟩ := h (s.setGuard g inside) hin
  refine ⟨Run.leave g s', ?_, ?_⟩
  · rw [Parser.guarded, Run.within_ample, hg]
    simp only [h₁]
  · rw [Run.guards_leave hg (hs'.trans hin.symm), hs]

theorem refuses_guarded {g : Nat} {e : DepthGuard.LimitExceeded}
    (he : (guardOf G g).enter = .error e) : (guarded g p).Refuses G i := by
  refine ⟨i, 0, fun s hs => ?_⟩
  have hg : (s.guardAt g).enter = .error e := by
    rw [guardAt_eq_guardOf hs]
    exact he
  rw [Parser.guarded, Run.within_ample, hg]
  exact ⟨_, rfl, hs⟩

/-! ## Items with separators between them -/

section Separated

variable (p q G)

/-- How a separated repetition goes on from `i`, with `c` for what is left after the last
item: the items it reads from here on, and what it leaves. -/
inductive ItemsFrom [Extent ι] : ι → ι → ι → List α → Prop where
  /-- No item is there, and what stands before it, a separator perhaps, is given back. -/
  | stop {c i : ι} (h : p.Refuses G i) : ItemsFrom c i c []
  /-- An item is there, and no separator after it. -/
  | last {c i r : ι} {a : α} (h : p.Reads G i r a) (hq : q.Refuses G r) :
      ItemsFrom c i r [a]
  /-- An item and a separator are there. -/
  | more {c i r m r' : ι} {a : α} {b : β} {as : List α} (h : p.Reads G i r a)
      (hq : q.Reads G r m b) (hm : extent m < extent i) (hrest : ItemsFrom r m r' as) :
      ItemsFrom c i r' (a :: as)

variable {p q G}

/-- Each round leaves less than the one before, so the rounds suffice. -/
theorem ItemsFrom.reads_separatedFrom [DecidableEq ι] [Extent ι] {c i r : ι} {as : List α}
    (h : ItemsFrom p q G c i r as) (values : Array α) (rounds : Nat) (hr : extent i ≤ rounds) :
    (separatedFrom p q (rounds + 1) values c).Reads G i r (values.toList ++ as) := by
  induction h generalizing values rounds with
  | stop h =>
    obtain ⟨j, l, h⟩ := h
    intro s hs
    obtain ⟨s', h₁, hs'⟩ := h s hs
    rw [separatedFrom_succ, h₁, List.append_nil]
    exact ⟨s', rfl, hs'⟩
  | @last c i r a h hq =>
    obtain ⟨j, l, hq⟩ := hq
    intro s hs
    obtain ⟨s', h₁, hs'⟩ := h s hs
    obtain ⟨s'', h₂, hs''⟩ := hq s' hs'
    rw [separatedFrom_succ, h₁]
    simp only [h₂]
    rw [Array.toList_push]
    exact ⟨s'', rfl, hs''⟩
  | @more c i r m r' a b as h hq hm _ ih =>
    have hlt : extent m < rounds := Nat.lt_of_lt_of_le hm hr
    obtain ⟨rounds, rfl⟩ := Nat.exists_eq_succ_of_ne_zero (Nat.ne_of_gt (Nat.zero_lt_of_lt hlt))
    have hne : m ≠ i := by
      rintro rfl
      exact Nat.lt_irrefl _ hm
    have hrest := ih (values.push a) rounds (Nat.le_of_lt_succ hlt)
    rw [Array.toList_push, List.append_assoc, List.singleton_append] at hrest
    intro s hs
    obtain ⟨s', h₁, hs'⟩ := h s hs
    obtain ⟨s'', h₂, hs''⟩ := hq s' hs'
    rw [separatedFrom_succ, h₁]
    simp only [h₂, if_neg hne]
    exact hrest s'' hs''

theorem ItemsFrom.reads [DecidableEq ι] [Extent ι] {i r : ι} {as : List α}
    (h : ItemsFrom p q G i i r as) : (separated p q).Reads G i r as := by
  have := h.reads_separatedFrom #[] (extent i) (Nat.le_refl _)
  rwa [List.nil_append] at this

end Separated

end Parser

/-! ## Lists of expressions -/

section Lists

variable {Λ : Type → Type} {ρ : Type} {τ : ρ → Type} [DecidableEq ι] [Extent ι] [Terminal Λ ι]
  (call : ∀ r : ρ, Parser ι (τ r)) (ps : List (Expr Λ τ α))

theorem Expr.ofFn_eval :
    (List.ofFn fun k => (ps.get k).eval call) = ps.map fun e => e.eval call := by
  conv_rhs => rw [← List.ofFn_get ps, List.map_ofFn]
  rfl

theorem Expr.eval_sequenceOf :
    (Expr.sequenceOf ps).eval call = Parser.sequence (ps.map fun e => e.eval call) := by
  rw [← Expr.ofFn_eval]
  rfl

theorem Expr.eval_firstOf (p : Expr Λ τ α) :
    (Expr.firstOf p ps).eval call
      = Parser.oneOf (p.eval call) (ps.map fun e => e.eval call) := by
  rw [← Expr.ofFn_eval]
  rfl

end Lists

end Descent
