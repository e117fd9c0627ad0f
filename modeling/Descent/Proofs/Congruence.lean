import Descent.Parse
import Descent.Proofs.Alike

/-!
# Relations that a grammar respects

Some properties of a run compare it with another run of the same grammar on the same input:
with one that is granted more calls, or with one whose guards have higher limits.  Whatever
the relation between the two is, it has to be carried through every combinator, and a
combinator is put together from very few steps.  It reads a terminal, runs one computation
after another, runs one inside a guard, or gives up because its rounds are used up.

So a relation between computations that respects these four steps (`Run.Congruence`) is
respected by every combinator and hence by every expression (`Expr.eval_congr`): if the
calls of rules are related, the two readings are.  The same holds of the layer above, which
turns an outcome into an answer for a caller.

`Descent.Proofs.Alike` is about inputs that differ; here the inputs are the same and the
states and the calls may differ.

The first of these relations is here as well.  One computation refines to another when they
agree wherever the first one has not used up its steps (`Run.Refines`).  It is a congruence,
so an answer that was reached with some number of calls is the answer for every larger
number (`Rules.parse_refines`).
-/

namespace Descent

variable {ι α β : Type}

/-- A relation between computations that is respected by the steps that a parser consists
of. -/
structure Run.Congruence (T : ∀ α : Type, Run α → Run α → Prop) : Prop where
  recorded : ∀ {α : Type} (step : List Event × Except Fault α),
    T α (Run.recorded step) (Run.recorded step)
  unfinished : ∀ {α : Type}, T α Run.unfinished Run.unfinished
  bind : ∀ {α β : Type} {m n : Run α} {f g : α → Run β}, T α m n →
    (∀ a, T β (f a) (g a)) → T β (m >>= f) (n >>= g)
  within : ∀ {α : Type} (g : Nat) (refused : α) {m n : Run α}, T α m n →
    T α (Run.within g refused m) (Run.within g refused n)

namespace Run.Congruence

variable {T : ∀ α : Type, Run α → Run α → Prop}

theorem ofExcept (hT : Congruence T) (r : Except Fault α) :
    T α (Run.ofExcept r) (Run.ofExcept r) := by
  have h := hT.recorded ([], r)
  rwa [Run.recorded_nil] at h

theorem pure (hT : Congruence T) (a : α) : T α (Pure.pure a) (Pure.pure a) :=
  hT.ofExcept (.ok a)

theorem map (hT : Congruence T) (f : α → β) {m n : Run α} (h : T α m n) :
    T β (f <$> m) (f <$> n) := by
  rw [map_eq_pure_bind, map_eq_pure_bind]
  exact hT.bind h fun a => hT.pure (f a)

theorem record (hT : Congruence T) (e : Event) :
    T Unit (modify fun s => s.record e) (modify fun s => s.record e) := by
  have h := hT.recorded ([e], .ok ())
  have he : (Run.recorded ([e], .ok ()) : Run Unit) = modify fun s => s.record e := by
    funext s
    rw [Run.recorded_apply, RunState.recordAll_singleton]
    rfl
  rwa [he] at h

end Run.Congruence

/-- Two parsers that are related on every input. -/
def Parser.Related (T : ∀ α : Type, Run α → Run α → Prop) (p q : Parser ι α) : Prop :=
  ∀ i, T (Outcome ι α) (p i) (q i)

/-! ## The combinators -/

namespace Parser
namespace Related

variable {T : ∀ α : Type, Run α → Run α → Prop} {p q : Parser ι α}

theorem flatMap (hT : Run.Congruence T) {f g : α → Parser ι β} (hp : Related T p q)
    (hf : ∀ a, Related T (f a) (g a)) :
    Related T (Parser.flatMap p f) (Parser.flatMap q g) := by
  intro i
  refine hT.bind (hp i) fun o => ?_
  cases o with
  | success r a => exact hf a r
  | failure j l => exact hT.pure _

theorem map (hT : Run.Congruence T) (f : α → β) (hp : Related T p q) :
    Related T (Parser.map f p) (Parser.map f q) := by
  rw [map_eq_flatMap, map_eq_flatMap]
  exact flatMap hT hp fun a i => hT.pure _

theorem optional (hT : Run.Congruence T) (hp : Related T p q) :
    Related T (Parser.optional p) (Parser.optional q) := by
  intro i
  refine hT.bind (hp i) fun o => ?_
  cases o with
  | success r a => exact hT.pure _
  | failure j l => exact hT.pure _

theorem sequenceFrom (hT : Run.Congruence T) {ps qs : List (Parser ι α)}
    (h : List.Forall₂ (Related T) ps qs) (values : Array α) :
    Related T (Parser.sequenceFrom values ps) (Parser.sequenceFrom values qs) := by
  induction h generalizing values with
  | nil => exact fun i => hT.pure _
  | cons hp _ ih =>
    rw [sequenceFrom_cons, sequenceFrom_cons]
    exact flatMap hT hp fun a => ih (values.push a)

theorem oneOfFrom (hT : Run.Congruence T) {ps qs : List (Parser ι α)}
    (h : List.Forall₂ (Related T) ps qs) (j : ι) (l : Int) :
    Related T (Parser.oneOfFrom j l ps) (Parser.oneOfFrom j l qs) := by
  induction h generalizing j l with
  | nil => exact fun i => hT.pure _
  | cons hp _ ih =>
    intro i
    refine hT.bind (hp i) fun o => ?_
    cases o with
    | success r a => exact hT.pure _
    | failure j' l' =>
      simp only
      split
      · exact ih j' l' i
      · exact ih j l i

theorem oneOf (hT : Run.Congruence T) {ps qs : List (Parser ι α)} (hp : Related T p q)
    (h : List.Forall₂ (Related T) ps qs) :
    Related T (Parser.oneOf p ps) (Parser.oneOf q qs) := by
  intro i
  refine hT.bind (hp i) fun o => ?_
  cases o with
  | success r a => exact hT.pure _
  | failure j l => exact oneOfFrom hT h j l i

theorem guarded (hT : Run.Congruence T) (g : Nat) (hp : Related T p q) :
    Related T (Parser.guarded g p) (Parser.guarded g q) :=
  fun i => hT.within g _ (hp i)

section Repetition

variable [DecidableEq ι] {p' q' : Parser ι β}

theorem repeatFrom (hT : Run.Congruence T) (hp : Related T p q) (minimum rounds : Nat)
    (values : Array α) :
    Related T (Parser.repeatFrom minimum p rounds values)
      (Parser.repeatFrom minimum q rounds values) := by
  induction rounds generalizing values with
  | zero => exact fun i => hT.unfinished
  | succ rounds ih =>
    intro i
    refine hT.bind (hp i) fun o => ?_
    cases o with
    | failure j l =>
      simp only
      split
      · exact hT.pure _
      · exact hT.pure _
    | success r a =>
      simp only
      split
      · exact hT.pure _
      · exact ih (values.push a) r

theorem separatedFrom (hT : Run.Congruence T) (hp : Related T p q) (hp' : Related T p' q')
    (rounds : Nat) (values : Array α) (committed : ι) :
    Related T (Parser.separatedFrom p p' rounds values committed)
      (Parser.separatedFrom q q' rounds values committed) := by
  induction rounds generalizing values committed with
  | zero => exact fun i => hT.unfinished
  | succ rounds ih =>
    intro i
    refine hT.bind (hp i) fun o => ?_
    cases o with
    | failure j l => exact hT.pure _
    | success r a =>
      refine hT.bind (hp' r) fun o => ?_
      cases o with
      | failure j l => exact hT.pure _
      | success next b =>
        simp only
        split
        · exact hT.pure _
        · exact ih (values.push a) r next

end Repetition

end Related
end Parser

/-! ## Expressions -/

section Eval

variable {T : ∀ α : Type, Run α → Run α → Prop} {Λ : Type → Type} {ρ : Type} {τ : ρ → Type}
  [DecidableEq ι] [Extent ι] [Terminal Λ ι]

/-- **Expressions respect every congruence**: they are read in related ways if the rules
that they refer to are. -/
theorem Expr.eval_congr (hT : Run.Congruence T) {call call' : ∀ r : ρ, Parser ι (τ r)}
    (hcall : ∀ r, Parser.Related T (call r) (call' r)) {α : Type} (e : Expr Λ τ α) :
    Parser.Related T (e.eval call) (e.eval call') := by
  induction e with
  | terminal t => exact fun i => hT.recorded _
  | succeed a => exact fun i => hT.pure _
  | fail l => exact fun i => hT.pure _
  | raise f => exact fun i => hT.ofExcept (.error f)
  | map f p ih => exact .map hT f ih
  | flatMap p f ihp ihf => exact .flatMap hT ihp ihf
  | sequence n ps ih => exact .sequenceFrom hT (forall₂_ofFn ih) #[]
  | oneOf p n ps ihp ih => exact .oneOf hT ihp (forall₂_ofFn ih)
  | optional p ih => exact .optional hT ih
  | repeated m p ih => exact fun i => Parser.Related.repeatFrom hT ih m _ #[] i
  | separated p q ihp ihq =>
    exact fun i => Parser.Related.separatedFrom hT ihp ihq _ #[] i i
  | ref r => exact hcall r
  | guarded g p ih => exact .guarded hT g ih

/-- The rules of a grammar, with as many calls on both sides. -/
theorem Rules.call_congr (hT : Run.Congruence T) (rules : Rules Λ τ) (n : Nat) (r : ρ) :
    Parser.Related T (rules.call (ι := ι) n r) (rules.call n r) := by
  induction n generalizing r with
  | zero => exact fun i => hT.unfinished
  | succ n ih =>
    rw [rules.call_succ]
    exact (rules r).eval_congr hT ih

theorem Rules.parse_congr (hT : Run.Congruence T) (rules : Rules Λ τ) {α : Type}
    (e : Expr Λ τ α) (calls : Nat) :
    Parser.Related T (rules.parse (ι := ι) e calls) (rules.parse e calls) :=
  e.eval_congr hT (rules.call_congr hT calls)

end Eval

/-! ## Answers for a caller -/

section Answers

variable {T : ∀ α : Type, Run α → Run α → Prop}

theorem Parser.reportFailure_congr (hT : Run.Congruence T) (view : FailureView ι) (j : ι)
    (l : Int) : T _ (Parser.reportFailure view j l) (Parser.reportFailure view j l) := by
  unfold reportFailure
  refine hT.bind (hT.ofExcept _) fun rendered => ?_
  cases view.locate with
  | none =>
    exact hT.bind (hT.pure none) fun _ => hT.bind (hT.record _) fun _ => hT.pure _
  | some locate =>
    exact hT.bind (hT.map some (hT.ofExcept _)) fun _ =>
      hT.bind (hT.record _) fun _ => hT.pure _

theorem Parser.parse_congr (hT : Run.Congruence T) (view : FailureView ι) {p q : Parser ι α}
    (h : Parser.Related T p q) (i : ι) :
    T _ (Parser.parse view p i) (Parser.parse view q i) := by
  refine hT.bind (h i) fun o => ?_
  cases o with
  | success r a => exact hT.pure _
  | failure j l => exact hT.map _ (Parser.reportFailure_congr hT view j l)

end Answers

/-! ## More calls -/

/-- The second computation does what the first does, unless the steps granted to the first
run out. -/
def Run.Refines (α : Type) (m n : Run α) : Prop :=
  ∀ s, (∃ s', m s = .error .unfinished s') ∨ m s = n s

/-- A computation that runs out of steps inside a guard runs out of them outside of it,
since a guard catches nothing but a stack that runs out. -/
theorem Run.refines_congruence : Run.Congruence Run.Refines where
  recorded step s := Or.inr rfl
  unfinished s := Or.inl ⟨s, rfl⟩
  bind := by
    intro α β m n f g h hf s
    simp only [Bind.bind, EStateM.bind]
    rcases h s with ⟨s', hs⟩ | hs
    · rw [hs]
      exact Or.inl ⟨s', rfl⟩
    · rw [hs]
      cases n s with
      | ok a s' => exact hf a s'
      | error e s' => exact Or.inr rfl
  within := by
    intro α g refused m n h s
    rw [Run.within_ample, Run.within_ample]
    cases (s.guardAt g).enter with
    | error e => exact Or.inr rfl
    | ok inside =>
      simp only
      rcases h (s.setGuard g inside) with ⟨s', hs⟩ | hs
      · rw [hs]
        exact Or.inl ⟨Run.leave g s', rfl⟩
      · rw [hs]
        exact Or.inr rfl

theorem Run.Refines.eq_of_ok {m n : Run α} (h : Run.Refines α m n) {s s' : RunState} {a : α}
    (hm : m s = .ok a s') : n s = .ok a s' := by
  rcases h s with ⟨t, ht⟩ | hs
  · rw [hm] at ht
    exact absurd ht (by simp)
  · rw [← hs, hm]

theorem Run.Refines.eq_of_fault {m n : Run α} (h : Run.Refines α m n) {s s' : RunState}
    {f : Fault} (hm : m s = .error (.fault f) s') : n s = .error (.fault f) s' := by
  rcases h s with ⟨t, ht⟩ | hs
  · rw [hm] at ht
    exact absurd ht (by simp)
  · rw [← hs, hm]

section Calls

variable {Λ : Type → Type} {ρ : Type} {τ : ρ → Type} [DecidableEq ι] [Extent ι]
  [Terminal Λ ι]

theorem Rules.call_refines (rules : Rules Λ τ) {n m : Nat} (hnm : n ≤ m) (r : ρ) :
    Parser.Related Run.Refines (rules.call (ι := ι) n r) (rules.call m r) := by
  induction n generalizing m r with
  | zero => exact fun i s => Or.inl ⟨s, rfl⟩
  | succ n ih =>
    obtain ⟨m, rfl⟩ := Nat.exists_eq_succ_of_ne_zero (show m ≠ 0 by omega)
    rw [rules.call_succ, rules.call_succ]
    exact (rules r).eval_congr Run.refines_congruence (ih (Nat.le_of_succ_le_succ hnm))

/-- **More calls never change an answer.** -/
theorem Rules.parse_refines (rules : Rules Λ τ) {α : Type} (e : Expr Λ τ α) {n m : Nat}
    (hnm : n ≤ m) :
    Parser.Related Run.Refines (rules.parse (ι := ι) e n) (rules.parse e m) :=
  e.eval_congr Run.refines_congruence (rules.call_refines hnm)

end Calls

end Descent
