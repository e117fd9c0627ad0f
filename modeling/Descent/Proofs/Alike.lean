import Descent.Grammar.Eval
import Mathlib.Data.List.Forall2

/-!
# Runs that end alike

A grammar cannot tell everything about its input and its state apart.  It never reads the
record of events, and of its inputs it sees only what the terminals answer, whether two of
them are equal, and how much of them is left.  So two runs of one grammar, on inputs that
agree in these three things and from states with the same guards, take the same steps.

This module makes that one theorem.  A relation `R` between two types of inputs is given
that the terminals respect (`ReadsAlike`).  Two runs end alike (`Run.EndAlike`) when they
have the same value, location or halt, their inputs are related by `R`, and both leave the
guards that they found.  Two parsers are alike (`Parser.Alike`) when their runs on related
inputs end alike.  There is one lemma for each combinator, and from these `Expr.eval_alike`
and `Rules.parse_alike` follow by induction on the expression and on the calls.

With equality for `R` the theorem says what a run leaves behind: the guards that it found,
and an answer in which the record had no part.  With the relation between the cursors of a
text and the suffixes of it, it says that a cursor only ever reads what is left.
-/

namespace Descent

variable {ι κ α β : Type}

/-! ## The relation -/

/-- Two runs end alike: with inputs that are related and otherwise with the same outcome,
or with the same halt; and in both of them the guards are `G`. -/
inductive Run.EndAlike (R : ι → κ → Prop) (G : Array DepthGuard) :
    EStateM.Result Halt RunState (Outcome ι α) →
      EStateM.Result Halt RunState (Outcome κ α) → Prop where
  | success {r : ι} {r' : κ} {s t : RunState} (h : R r r') (a : α) (hs : s.guards = G)
      (ht : t.guards = G) : EndAlike R G (.ok (.success r a) s) (.ok (.success r' a) t)
  | failure {j : ι} {j' : κ} {s t : RunState} (h : R j j') (l : Int) (hs : s.guards = G)
      (ht : t.guards = G) : EndAlike R G (.ok (.failure j l) s) (.ok (.failure j' l) t)
  | halt {s t : RunState} (h : Halt) (hs : s.guards = G) (ht : t.guards = G) :
      EndAlike R G (.error h s) (.error h t)

/-- Two answers of a terminal are alike. -/
inductive Terminal.AnswerAlike (R : ι → κ → Prop) :
    Except Fault (Outcome ι α) → Except Fault (Outcome κ α) → Prop where
  | success {r : ι} {r' : κ} (h : R r r') (a : α) :
      AnswerAlike R (.ok (.success r a)) (.ok (.success r' a))
  | failure {j : ι} {j' : κ} (h : R j j') (l : Int) :
      AnswerAlike R (.ok (.failure j l)) (.ok (.failure j' l))
  | fault (f : Fault) : AnswerAlike R (.error f) (.error f)

/-- A grammar over the terminals `Λ` cannot tell inputs that `R` relates apart: the
terminals answer alike, a step moves on both sides or on neither, and as much is left. -/
structure ReadsAlike (Λ : Type → Type) [Extent ι] [Extent κ] [Terminal Λ ι] [Terminal Λ κ]
    (R : ι → κ → Prop) : Prop where
  read : ∀ {α : Type} (t : Λ α) {i : ι} {k : κ}, R i k →
    Terminal.AnswerAlike R (Terminal.read t i).2 (Terminal.read t k).2
  eq_iff : ∀ {i r : ι} {k l : κ}, R i k → R r l → (r = i ↔ l = k)
  extent_eq : ∀ {i : ι} {k : κ}, R i k → extent i = extent k

/-- Two parsers whose runs on related inputs, from states with the same guards, end
alike. -/
def Parser.Alike (R : ι → κ → Prop) (p : Parser ι α) (q : Parser κ α) : Prop :=
  ∀ ⦃G : Array DepthGuard⦄ ⦃i : ι⦄ ⦃k : κ⦄ ⦃s t : RunState⦄, R i k → s.guards = G →
    t.guards = G → Run.EndAlike R G (p i s) (q k t)

/-! ## Guards that are entered and left -/

theorem RunState.guardAt_congr {s t : RunState} (h : s.guards = t.guards) (g : Nat) :
    s.guardAt g = t.guardAt g := by
  unfold guardAt
  rw [h]

theorem RunState.guards_setGuard (s : RunState) (g : Nat) (d : DepthGuard) :
    (s.setGuard g d).guards = s.guards.setIfInBounds g d := rfl

/-- A guard outside the table is not entered, so the place of one that is lies in it. -/
theorem RunState.lt_size_of_enter {s : RunState} {g : Nat} {inside : DepthGuard}
    (h : (s.guardAt g).enter = .ok inside) : g < s.guards.size := by
  rcases Nat.lt_or_ge g s.guards.size with hg | hg
  · exact hg
  · rw [guardAt_of_le hg, DepthGuard.enter_of_le (by exact Int.le_refl 0)] at h
    exact absurd h (by simp)

/-- Leaving a guard puts back the table that was there before it was entered, if the table
is the one that entering it made. -/
theorem Run.guards_leave {s s' : RunState} {g : Nat} {inside : DepthGuard}
    (h : (s.guardAt g).enter = .ok inside)
    (hs : s'.guards = (s.setGuard g inside).guards) : (leave g s').guards = s.guards := by
  have hg : g < s.guards.size := RunState.lt_size_of_enter h
  have hin : s'.guardAt g = inside := by
    rw [RunState.guardAt_congr hs, RunState.guardAt_setGuard_self hg]
  rw [leave, hin, DepthGuard.leave_of_enter h, RunState.guards_setGuard, hs,
    ← RunState.guards_setGuard, RunState.setGuard_setGuard, RunState.setGuard_guardAt]

namespace Run.EndAlike

variable {R : ι → κ → Prop} {G : Array DepthGuard} {i : ι} {k : κ} {s t : RunState}

/-- Whether there is room to record a refusal does not depend on anything but the guards. -/
theorem refuse [Headroom] (hik : R i k) (e : Event) (hs : s.guards = G) (ht : t.guards = G) :
    EndAlike R G (Run.refuse e (.failure i 0 : Outcome ι α) s)
      (Run.refuse e (.failure k 0 : Outcome κ α) t) := by
  unfold Run.refuse
  rw [hs, ht]
  cases Headroom.overflow G e with
  | none => exact .failure hik 0 hs ht
  | some reason => exact .halt _ hs ht

theorem recovering [Headroom] (g : Nat) (hik : R i k) {x : Run (Outcome ι α)}
    {y : Run (Outcome κ α)} (h : EndAlike R G (x s) (y t)) :
    EndAlike R G (Run.recovering g (.failure i 0) x s) (Run.recovering g (.failure k 0) y t) := by
  unfold Run.recovering
  generalize x s = x at h ⊢
  generalize y t = y at h ⊢
  cases h with
  | success hr a hs ht => exact .success hr a hs ht
  | failure hj l hs ht => exact .failure hj l hs ht
  | halt h hs ht =>
    cases h with
    | unfinished => exact .halt _ hs ht
    | fault f =>
      cases f with
      | stackExhausted reason =>
        simp only [RunState.guardAt_congr (hs.trans ht.symm)]
        exact .refuse hik _ hs ht
      | _ => exact .halt _ hs ht

theorem leaving {g : Nat} {inside : DepthGuard} (he : (s.guardAt g).enter = .ok inside)
    {x : Run (Outcome ι α)} {y : Run (Outcome κ α)} {s' t' : RunState}
    (h : EndAlike R (s.setGuard g inside).guards (x s') (y t')) :
    EndAlike R s.guards (Run.leaving g x s') (Run.leaving g y t') := by
  unfold Run.leaving
  generalize x s' = x at h ⊢
  generalize y t' = y at h ⊢
  cases h with
  | success hr a hs ht => exact .success hr a (guards_leave he hs) (guards_leave he ht)
  | failure hj l hs ht => exact .failure hj l (guards_leave he hs) (guards_leave he ht)
  | halt h hs ht => exact .halt h (guards_leave he hs) (guards_leave he ht)

end Run.EndAlike

/-! ## One lemma for each combinator -/

namespace Parser
namespace Alike

variable {R : ι → κ → Prop} {p : Parser ι α} {q : Parser κ α}

theorem succeed (a : α) : Alike R (Parser.succeed a) (Parser.succeed a) := by
  intro G i k s t hik hs ht
  exact .success hik a hs ht

theorem fail (l : Int) : Alike R (Parser.fail l : Parser ι α) (Parser.fail l) := by
  intro G i k s t hik hs ht
  exact .failure hik l hs ht

theorem raise (f : Fault) : Alike R (Parser.raise f : Parser ι α) (Parser.raise f) := by
  intro G i k s t _ hs ht
  exact .halt (.fault f) hs ht

theorem flatMap {f : α → Parser ι β} {g : α → Parser κ β} (hp : p.Alike R q)
    (hf : ∀ a, (f a).Alike R (g a)) :
    (Parser.flatMap p f).Alike R (Parser.flatMap q g) := by
  intro G i k s t hik hs ht
  have h := hp hik hs ht
  rw [flatMap_apply, flatMap_apply]
  generalize p i s = x at h ⊢
  generalize q k t = y at h ⊢
  cases h with
  | success hr a hs' ht' => exact hf a hr hs' ht'
  | failure hj l hs' ht' => exact .failure hj l hs' ht'
  | halt h hs' ht' => exact .halt h hs' ht'

theorem map (f : α → β) (hp : p.Alike R q) :
    (Parser.map f p).Alike R (Parser.map f q) := by
  rw [map_eq_flatMap, map_eq_flatMap]
  exact flatMap hp fun a => succeed (f a)

theorem optional (hp : p.Alike R q) : (Parser.optional p).Alike R (Parser.optional q) := by
  intro G i k s t hik hs ht
  have h := hp hik hs ht
  rw [optional_apply, optional_apply]
  generalize p i s = x at h ⊢
  generalize q k t = y at h ⊢
  cases h with
  | success hr a hs' ht' => exact .success hr (some a) hs' ht'
  | failure _ _ hs' ht' => exact .success hik none hs' ht'
  | halt h hs' ht' => exact .halt h hs' ht'

theorem sequenceFrom {ps : List (Parser ι α)} {qs : List (Parser κ α)}
    (h : List.Forall₂ (Alike R) ps qs) (values : Array α) :
    (Parser.sequenceFrom values ps).Alike R (Parser.sequenceFrom values qs) := by
  induction h generalizing values with
  | nil => exact succeed values.toList
  | cons hp _ ih =>
    rw [sequenceFrom_cons, sequenceFrom_cons]
    exact flatMap hp fun a => ih (values.push a)

theorem sequence {ps : List (Parser ι α)} {qs : List (Parser κ α)}
    (h : List.Forall₂ (Alike R) ps qs) :
    (Parser.sequence ps).Alike R (Parser.sequence qs) := sequenceFrom h #[]

theorem oneOfFrom {ps : List (Parser ι α)} {qs : List (Parser κ α)}
    (h : List.Forall₂ (Alike R) ps qs) {j : ι} {j' : κ} (hj : R j j') (l : Int) :
    (Parser.oneOfFrom j l ps).Alike R (Parser.oneOfFrom j' l qs) := by
  induction h generalizing j j' l with
  | nil =>
    intro G i k s t _ hs ht
    exact .failure hj l hs ht
  | @cons p q ps qs hp _ ih =>
    intro G i k s t hik hs ht
    have h := hp hik hs ht
    rw [oneOfFrom_cons, oneOfFrom_cons]
    generalize p i s = x at h ⊢
    generalize q k t = y at h ⊢
    cases h with
    | success hr a hs' ht' => exact .success hr a hs' ht'
    | failure hj' l' hs' ht' =>
      by_cases hl : l < l'
      · simp only [if_pos hl]
        exact ih hj' l' hik hs' ht'
      · simp only [if_neg hl]
        exact ih hj l hik hs' ht'
    | halt h hs' ht' => exact .halt h hs' ht'

theorem oneOf {ps : List (Parser ι α)} {qs : List (Parser κ α)} (hp : p.Alike R q)
    (h : List.Forall₂ (Alike R) ps qs) :
    (Parser.oneOf p ps).Alike R (Parser.oneOf q qs) := by
  intro G i k s t hik hs ht
  have h' := hp hik hs ht
  rw [oneOf_apply, oneOf_apply]
  generalize p i s = x at h' ⊢
  generalize q k t = y at h' ⊢
  cases h' with
  | success hr a hs' ht' => exact .success hr a hs' ht'
  | failure hj l hs' ht' => exact oneOfFrom h hj l hik hs' ht'
  | halt h hs' ht' => exact .halt h hs' ht'

/-- Both sides enter the guard or neither does, since the guards are the same; what the
runs inside it leave behind is the table with one entry more, and leaving takes it back. -/
theorem guarded [Headroom] (g : Nat) (hp : p.Alike R q) :
    (Parser.guarded g p).Alike R (Parser.guarded g q) := by
  intro G i k s t hik hs ht
  have hst : t.guards = s.guards := ht.trans hs.symm
  subst hs
  unfold Parser.guarded
  cases he : (s.guardAt g).enter with
  | error e =>
    rw [Run.within_of_enter_error he,
      Run.within_of_enter_error (by rw [RunState.guardAt_congr hst, he])]
    exact .refuse hik _ rfl hst
  | ok inside =>
    have hin : (t.setGuard g inside).guards = (s.setGuard g inside).guards := by
      rw [RunState.guards_setGuard, RunState.guards_setGuard, hst]
    rw [Run.within_of_enter he, Run.within_of_enter (by rw [RunState.guardAt_congr hst, he])]
    exact .leaving he (.recovering g hik (hp hik rfl hin))

section Repetition

variable [DecidableEq ι] [DecidableEq κ] {p' : Parser ι β} {q' : Parser κ β}

theorem repeatFrom (hR : ∀ {i r : ι} {k l : κ}, R i k → R r l → (r = i ↔ l = k))
    (hp : p.Alike R q) (minimum rounds : Nat) (values : Array α) :
    (Parser.repeatFrom minimum p rounds values).Alike R
      (Parser.repeatFrom minimum q rounds values) := by
  induction rounds generalizing values with
  | zero =>
    intro G i k s t _ hs ht
    exact .halt .unfinished hs ht
  | succ rounds ih =>
    intro G i k s t hik hs ht
    have h := hp hik hs ht
    rw [repeatFrom_succ, repeatFrom_succ]
    generalize p i s = x at h ⊢
    generalize q k t = y at h ⊢
    cases h with
    | success hr a hs' ht' =>
      simp only [hR hik hr]
      split
      · exact .success hik _ hs' ht'
      · exact ih (values.push a) hr hs' ht'
    | failure hj l hs' ht' =>
      simp only
      split
      · exact .failure hj l hs' ht'
      · exact .success hik _ hs' ht'
    | halt h hs' ht' => exact .halt h hs' ht'

theorem separatedFrom (hR : ∀ {i r : ι} {k l : κ}, R i k → R r l → (r = i ↔ l = k))
    (hp : p.Alike R q) (hp' : p'.Alike R q') (rounds : Nat) (values : Array α) {c : ι}
    {c' : κ} (hc : R c c') :
    (Parser.separatedFrom p p' rounds values c).Alike R
      (Parser.separatedFrom q q' rounds values c') := by
  induction rounds generalizing values c c' with
  | zero =>
    intro G i k s t _ hs ht
    exact .halt .unfinished hs ht
  | succ rounds ih =>
    intro G i k s t hik hs ht
    have h := hp hik hs ht
    rw [separatedFrom_succ, separatedFrom_succ]
    generalize p i s = x at h ⊢
    generalize q k t = y at h ⊢
    cases h with
    | @success r r' s' t' hr a hs' ht' =>
      have h := hp' hr hs' ht'
      simp only
      generalize p' r s' = x at h ⊢
      generalize q' r' t' = y at h ⊢
      cases h with
      | success hn b hs'' ht'' =>
        simp only [hR hik hn]
        split
        · exact .success hr _ hs'' ht''
        · exact ih (values.push a) hr hn hs'' ht''
      | failure _ _ hs'' ht'' => exact .success hr _ hs'' ht''
      | halt h hs'' ht'' => exact .halt h hs'' ht''
    | failure _ _ hs' ht' => exact .success hc _ hs' ht'
    | halt h hs' ht' => exact .halt h hs' ht'

variable [Extent ι] [Extent κ]

theorem repeated (hR : ∀ {i r : ι} {k l : κ}, R i k → R r l → (r = i ↔ l = k))
    (hx : ∀ {i : ι} {k : κ}, R i k → extent i = extent k) (hp : p.Alike R q)
    (minimum : Nat) :
    (Parser.repeated minimum p).Alike R (Parser.repeated minimum q) := by
  intro G i k s t hik hs ht
  unfold Parser.repeated
  rw [hx hik]
  exact repeatFrom hR hp minimum _ #[] hik hs ht

theorem separated (hR : ∀ {i r : ι} {k l : κ}, R i k → R r l → (r = i ↔ l = k))
    (hx : ∀ {i : ι} {k : κ}, R i k → extent i = extent k) (hp : p.Alike R q)
    (hp' : p'.Alike R q') : (Parser.separated p p').Alike R (Parser.separated q q') := by
  intro G i k s t hik hs ht
  unfold Parser.separated
  rw [hx hik]
  exact separatedFrom hR hp hp' _ #[] hik hik hs ht

end Repetition

end Alike
end Parser

/-! ## Expressions and grammars -/

variable {Λ : Type → Type} {ρ : Type} {τ : ρ → Type}

theorem forall₂_ofFn {γ δ : Type} {r : γ → δ → Prop} {n : Nat} {f : Fin n → γ}
    {g : Fin n → δ} (h : ∀ k, r (f k) (g k)) :
    List.Forall₂ r (List.ofFn f) (List.ofFn g) := by
  refine List.forall₂_iff_get.mpr ⟨by simp, fun k h₁ h₂ => ?_⟩
  simpa using h ⟨k, by simpa using h₁⟩

section Eval

variable [DecidableEq ι] [DecidableEq κ] [Extent ι] [Extent κ] [Terminal Λ ι] [Terminal Λ κ]
variable {R : ι → κ → Prop}

omit [DecidableEq ι] [DecidableEq κ] in
/-- Reading a terminal on related inputs ends alike. -/
theorem Parser.Alike.terminal (hR : ReadsAlike Λ R) (x : Λ α) :
    Parser.Alike R (fun i => Run.recorded (Terminal.read x i))
      (fun k => Run.recorded (Terminal.read x k)) := by
  intro G i k s t hik hs ht
  have h := hR.read x hik
  simp only [Run.recorded_apply]
  generalize (Terminal.read x i).1 = es
  generalize (Terminal.read x k).1 = es'
  generalize (Terminal.read x i).2 = a at h ⊢
  generalize (Terminal.read x k).2 = b at h ⊢
  cases h with
  | success hr a => exact .success hr a hs ht
  | failure hj l => exact .failure hj l hs ht
  | fault f => exact .halt (.fault f) hs ht

variable [Headroom]

/-- **An expression ends alike on related inputs**, if the rules that it refers to do. -/
theorem Expr.eval_alike (hR : ReadsAlike Λ R) {call : ∀ r : ρ, Parser ι (τ r)}
    {call' : ∀ r : ρ, Parser κ (τ r)} (hcall : ∀ r, (call r).Alike R (call' r))
    {α : Type} (e : Expr Λ τ α) : (e.eval call).Alike R (e.eval call') := by
  induction e with
  | terminal t => exact Parser.Alike.terminal hR t
  | succeed a => exact Parser.Alike.succeed a
  | fail l => exact Parser.Alike.fail l
  | raise f => exact Parser.Alike.raise f
  | map f p ih => exact Parser.Alike.map f ih
  | flatMap p f ihp ihf => exact Parser.Alike.flatMap ihp ihf
  | sequence n ps ih => exact Parser.Alike.sequence (forall₂_ofFn ih)
  | oneOf p n ps ihp ih => exact Parser.Alike.oneOf ihp (forall₂_ofFn ih)
  | optional p ih => exact Parser.Alike.optional ih
  | repeated m p ih => exact Parser.Alike.repeated hR.eq_iff hR.extent_eq ih m
  | separated p q ihp ihq =>
    exact Parser.Alike.separated hR.eq_iff hR.extent_eq ihp ihq
  | ref r => exact hcall r
  | guarded g p ih => exact Parser.Alike.guarded g ih

/-- The rules of a grammar end alike on related inputs, however many calls are granted. -/
theorem Rules.call_alike (hR : ReadsAlike Λ R) (rules : Rules Λ τ) (n : Nat) (r : ρ) :
    (rules.call (ι := ι) n r).Alike R (rules.call (ι := κ) n r) := by
  induction n generalizing r with
  | zero =>
    intro G i k s t _ hs ht
    exact .halt .unfinished hs ht
  | succ n ih =>
    rw [rules.call_succ, rules.call_succ]
    exact (rules r).eval_alike hR ih

/-- **A grammar ends alike on related inputs.** -/
theorem Rules.parse_alike (hR : ReadsAlike Λ R) (rules : Rules Λ τ) {α : Type}
    (e : Expr Λ τ α) (calls : Nat) :
    (rules.parse (ι := ι) e calls).Alike R (rules.parse (ι := κ) e calls) :=
  e.eval_alike hR (rules.call_alike hR calls)

end Eval

end Descent
