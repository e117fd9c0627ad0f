import Descent.Proofs.Alike
import Descent.Text.Primitive

/-!
# Guards count the invocations that are active

The table of guards is the one thing that a run reads and changes, so a grammar that is
used again and again is only as good as the table that each run leaves.  Three facts are
needed.

The first is about the end of a run.  By `Rules.parse_alike`, with equality for the
relation, every run leaves the guards that it found, however it ends, and its answer does
not depend on the record.

The second is about the middle of a run.  An `Invocation` is an expression together with
the input and the state in which it is begun, and `Invokes` says which invocations another
one makes on the way.  Only the step from a guarded expression to its body enters a guard,
and everything that has ended before a step has left the guards as they were; so along a
chain of steps (`Active`) the counter of a guard has gone up by the number of times that
the chain has entered it.  At the end of each invocation the counters are again those of
its beginning, so between them these two facts speak about every moment of a run.

The third is about that one step.  What the run of a guarded expression is follows from its
place on the chain: at the limit it is a refusal (`RefusedRun`), and below the limit it is
the run of its body with one more entry in the guard, which is taken back at the end
(`EnteredRun`).  A stack that runs out in the body becomes a failure, if there is room to
record it.  Whether there is room is open in all of this (`Headroom`), also at the next guard
outside, so nothing here relies on it.
-/

namespace Descent

variable {ι α β : Type}

/-! ## What a run leaves -/

namespace Run

/-- The state in which a run ends. -/
def stateAfter : EStateM.Result Halt RunState α → RunState
  | .ok _ s => s
  | .error _ s => s

/-- How a run ends, apart from the state. -/
def answer : EStateM.Result Halt RunState α → Except Halt α
  | .ok a _ => .ok a
  | .error h _ => .error h

end Run

/-- A parser is steady when it leaves the guards as it found them and its answer does not
depend on the record. -/
abbrev Parser.Steady (p : Parser ι α) : Prop := Parser.Alike (fun i k : ι => i = k) p p

namespace Parser.Steady

variable {p : Parser ι α}

theorem guards_eq (hp : p.Steady) (i : ι) (s : RunState) :
    (Run.stateAfter (p i s)).guards = s.guards := by
  have h := hp (rfl : i = i) (rfl : s.guards = s.guards) rfl
  generalize p i s = x at h
  cases h with
  | success _ _ hs _ => exact hs
  | failure _ _ hs _ => exact hs
  | halt _ hs _ => exact hs

theorem guards_of_ok (hp : p.Steady) {i : ι} {s t : RunState} {o : Outcome ι α}
    (h : p i s = .ok o t) : t.guards = s.guards := by
  have hg := hp.guards_eq i s
  rwa [h] at hg

theorem answer_congr (hp : p.Steady) (i : ι) {s t : RunState} (hst : s.guards = t.guards) :
    Run.answer (p i s) = Run.answer (p i t) := by
  have h := hp (rfl : i = i) hst rfl
  generalize p i s = x at h
  generalize p i t = y at h
  cases h with
  | success hr _ _ _ => rw [hr]; rfl
  | failure hj _ _ _ => rw [hj]; rfl
  | halt _ _ _ => rfl

end Parser.Steady

/-! ## A sequence of inputs -/

namespace RunState

/-- No guard has an active entry. -/
def Idle (s : RunState) : Prop := ∀ g, (s.guardAt g).currentDepth = 0

/-- A guard is idle when it is made, whatever its limit is. -/
theorem Idle.addGuard {s : RunState} (hs : s.Idle) (recursionLimit maxDepth frames : Int) :
    (s.addGuard recursionLimit maxDepth frames).2.Idle := by
  intro g
  have h := hs g
  simp only [guardAt, RunState.addGuard, Array.getD_eq_getD_getElem?,
    Array.getElem?_push] at h ⊢
  split
  · rfl
  · exact h

end RunState

/-! ## Invocations -/

variable {Λ : Type → Type} {ρ : Type} {τ : ρ → Type}

/-- An expression that is about to be read: how many calls it may make, its input, and the
state in which it is begun. -/
structure Invocation (Λ : Type → Type) {ρ : Type} (τ : ρ → Type) (ι : Type) where
  calls : Nat
  {value : Type}
  expr : Expr Λ τ value
  input : ι
  state : RunState

section Invocations

/-- The rounds of a repetition: from `j` in the state `t` the next round is begun. -/
inductive Parser.Rounds (p : Parser ι α) (i : ι) (s : RunState) : ι → RunState → Prop where
  | first : Rounds p i s i s
  | next {j r : ι} {t t' : RunState} {a : α} (h : Rounds p i s j t)
      (hp : p j t = .ok (.success r a) t') (hr : r ≠ j) : Rounds p i s r t'

/-- The rounds of a separated repetition: from `j` in the state `t` the next item is
read. -/
inductive Parser.SeparatedRounds (p : Parser ι α) (q : Parser ι β) (i : ι) (s : RunState) :
    ι → RunState → Prop where
  | first : SeparatedRounds p q i s i s
  | next {j r m : ι} {t t' t'' : RunState} {a : α} {b : β} (h : SeparatedRounds p q i s j t)
      (hp : p j t = .ok (.success r a) t') (hq : q r t' = .ok (.success m b) t'')
      (hm : m ≠ j) : SeparatedRounds p q i s m t''

theorem Parser.Rounds.guards_eq {p : Parser ι α} (hp : p.Steady) {i j : ι}
    {s t : RunState} (h : p.Rounds i s j t) : t.guards = s.guards := by
  induction h with
  | first => rfl
  | next _ hpj _ ih => exact (hp.guards_of_ok hpj).trans ih

theorem Parser.SeparatedRounds.guards_eq {p : Parser ι α} {q : Parser ι β} (hp : p.Steady)
    (hq : q.Steady) {i j : ι} {s t : RunState} (h : SeparatedRounds p q i s j t) :
    t.guards = s.guards := by
  induction h with
  | first => rfl
  | next _ hpj hqr _ ih =>
    exact (hq.guards_of_ok hqr).trans ((hp.guards_of_ok hpj).trans ih)

variable [DecidableEq ι] [Extent ι] [Terminal Λ ι] [Headroom]

/-- The run of an invocation. -/
def Invocation.run (rules : Rules Λ τ) (x : Invocation Λ τ ι) :
    EStateM.Result Halt RunState (Outcome ι x.value) :=
  rules.parse x.expr x.calls x.input x.state

/-- One invocation makes another one on the way, and enters the guards in the list for
it: the guard of a guarded expression, and none in every other case. -/
inductive Invokes (rules : Rules Λ τ) :
    Invocation Λ τ ι → List Nat → Invocation Λ τ ι → Prop where
  | map {n : Nat} {α β : Type} {f : α → β} {p : Expr Λ τ α} {i : ι} {s : RunState} :
      Invokes rules ⟨n, .map f p, i, s⟩ [] ⟨n, p, i, s⟩
  | flatMap {n : Nat} {α β : Type} {p : Expr Λ τ α} {f : α → Expr Λ τ β} {i : ι}
      {s : RunState} : Invokes rules ⟨n, .flatMap p f, i, s⟩ [] ⟨n, p, i, s⟩
  | flatMapNext {n : Nat} {α β : Type} {p : Expr Λ τ α} {f : α → Expr Λ τ β} {i r : ι}
      {s t : RunState} {a : α} (h : rules.parse p n i s = .ok (.success r a) t) :
      Invokes rules ⟨n, .flatMap p f, i, s⟩ [] ⟨n, f a, r, t⟩
  | sequence {n m : Nat} {α : Type} {ps : Fin m → Expr Λ τ α} {i j : ι} {s t : RunState}
      {vs : List α} (k : Fin m)
      (h : Parser.sequence ((List.ofFn fun k => rules.parse (ps k) n).take k) i s
        = .ok (.success j vs) t) :
      Invokes rules ⟨n, .sequence m ps, i, s⟩ [] ⟨n, ps k, j, t⟩
  | oneOf {n m : Nat} {α : Type} {p : Expr Λ τ α} {ps : Fin m → Expr Λ τ α} {i : ι}
      {s : RunState} : Invokes rules ⟨n, .oneOf p m ps, i, s⟩ [] ⟨n, p, i, s⟩
  | oneOfNext {n m : Nat} {α : Type} {p : Expr Λ τ α} {ps : Fin m → Expr Λ τ α}
      {i j : ι} {s t : RunState} {l : Int} (k : Fin m)
      (h : Parser.oneOf (rules.parse p n) ((List.ofFn fun k => rules.parse (ps k) n).take k)
        i s = .ok (.failure j l) t) :
      Invokes rules ⟨n, .oneOf p m ps, i, s⟩ [] ⟨n, ps k, i, t⟩
  | optional {n : Nat} {α : Type} {p : Expr Λ τ α} {i : ι} {s : RunState} :
      Invokes rules ⟨n, .optional p, i, s⟩ [] ⟨n, p, i, s⟩
  | repeated {n minimum : Nat} {α : Type} {p : Expr Λ τ α} {i j : ι} {s t : RunState}
      (h : Parser.Rounds (rules.parse p n) i s j t) :
      Invokes rules ⟨n, .repeated minimum p, i, s⟩ [] ⟨n, p, j, t⟩
  | separatedItem {n : Nat} {α β : Type} {p : Expr Λ τ α} {q : Expr Λ τ β} {i j : ι}
      {s t : RunState}
      (h : Parser.SeparatedRounds (rules.parse p n) (rules.parse q n) i s j t) :
      Invokes rules ⟨n, .separated p q, i, s⟩ [] ⟨n, p, j, t⟩
  | separator {n : Nat} {α β : Type} {p : Expr Λ τ α} {q : Expr Λ τ β} {i j r : ι}
      {s t t' : RunState} {a : α}
      (h : Parser.SeparatedRounds (rules.parse p n) (rules.parse q n) i s j t)
      (hp : rules.parse p n j t = .ok (.success r a) t') :
      Invokes rules ⟨n, .separated p q, i, s⟩ [] ⟨n, q, r, t'⟩
  | ref {n : Nat} {r : ρ} {i : ι} {s : RunState} :
      Invokes rules ⟨n + 1, .ref r, i, s⟩ [] ⟨n, rules r, i, s⟩
  | guarded {n g : Nat} {α : Type} {p : Expr Λ τ α} {i : ι} {s : RunState}
      {inside : DepthGuard} (h : (s.guardAt g).enter = .ok inside) :
      Invokes rules ⟨n, .guarded g p, i, s⟩ [g] ⟨n, p, i, s.setGuard g inside⟩

/-- While `x` is run there is a moment at which `y` is begun, and `gs` are the guards of the
guarded expressions that were entered on the way to `y` and not left: one for each active
invocation, the innermost first. -/
inductive Active (rules : Rules Λ τ) (x : Invocation Λ τ ι) :
    List Nat → Invocation Λ τ ι → Prop where
  | start : Active rules x [] x
  | step {gs hs : List Nat} {y z : Invocation Λ τ ι} (h : Active rules x gs y)
      (hy : Invokes rules y hs z) : Active rules x (hs ++ gs) z

end Invocations

/-! ## What one step and what a chain of steps does to the counters -/

/-- The state `t` has the guards of `s` with one more entry for each member of `gs`, and a
guard that was entered stands within its limit. -/
structure Entered (s t : RunState) (gs : List Nat) : Prop where
  depth_eq : ∀ g, (t.guardAt g).currentDepth = (s.guardAt g).currentDepth + gs.count g
  limit_eq : ∀ g, (t.guardAt g).maxDepth = (s.guardAt g).maxDepth
  within : ∀ g ∈ gs, (t.guardAt g).currentDepth ≤ (t.guardAt g).maxDepth

namespace Entered

theorem of_guards_eq {s t : RunState} (h : t.guards = s.guards) : Entered s t [] where
  depth_eq g := by rw [RunState.guardAt_congr h]; simp
  limit_eq g := by rw [RunState.guardAt_congr h]
  within := by simp

theorem of_enter {s : RunState} {g : Nat} {inside : DepthGuard}
    (h : (s.guardAt g).enter = .ok inside) : Entered s (s.setGuard g inside) [g] := by
  have hg : (s.setGuard g inside).guardAt g = inside :=
    RunState.guardAt_setGuard_self (RunState.lt_size_of_enter h) inside
  have hin : inside.currentDepth = (s.guardAt g).currentDepth + 1 ∧
      inside.maxDepth = (s.guardAt g).maxDepth ∧ inside.currentDepth ≤ inside.maxDepth := by
    obtain ⟨hlt, rfl⟩ := DepthGuard.of_enter_eq_ok h
    exact ⟨rfl, rfl, by simp only; omega⟩
  refine ⟨fun k => ?_, fun k => ?_, fun k hk => ?_⟩
  · by_cases hk : g = k
    · subst hk
      rw [hg, hin.1]
      simp
    · rw [RunState.guardAt_setGuard_of_ne s hk]
      simp [hk]
  · by_cases hk : g = k
    · subst hk
      rw [hg, hin.2.1]
    · rw [RunState.guardAt_setGuard_of_ne s hk]
  · obtain rfl := List.mem_singleton.mp hk
    rw [hg]
    exact hin.2.2

theorem trans {s t u : RunState} {gs hs : List Nat} (h : Entered s t gs)
    (h' : Entered t u hs) : Entered s u (hs ++ gs) where
  depth_eq g := by
    rw [h'.depth_eq, h.depth_eq, List.count_append]
    omega
  limit_eq g := (h'.limit_eq g).trans (h.limit_eq g)
  within g hg := by
    by_cases hin : g ∈ hs
    · exact h'.within g hin
    · have hgs : g ∈ gs := (List.mem_append.mp hg).resolve_left hin
      have := h.within g hgs
      rw [h'.depth_eq, h'.limit_eq, List.count_eq_zero.mpr hin]
      omega

end Entered

section Steps

variable [DecidableEq ι] [Extent ι] [Terminal Λ ι]

omit [DecidableEq ι] in
theorem readsAlike_eq : ReadsAlike Λ (fun i k : ι => i = k) where
  read t i k h := by
    subst h
    cases (Terminal.read t i).2 with
    | ok o =>
      cases o with
      | success r a => exact .success rfl a
      | failure j l => exact .failure rfl l
    | error f => exact .fault f
  eq_iff h h' := by rw [h, h']
  extent_eq h := by rw [h]

variable [Headroom]

/-- Every grammar is steady. -/
theorem Rules.parse_steady (rules : Rules Λ τ) {α : Type} (e : Expr Λ τ α) (calls : Nat) :
    (rules.parse (ι := ι) e calls).Steady := rules.parse_alike readsAlike_eq e calls

/-- **One step.**  Nothing but the step into a guarded expression changes a counter. -/
theorem Invokes.entered {rules : Rules Λ τ} {x y : Invocation Λ τ ι} {gs : List Nat}
    (h : Invokes rules x gs y) : Entered x.state y.state gs := by
  have steady : ∀ {α : Type} (e : Expr Λ τ α) (n : Nat),
      (rules.parse (ι := ι) e n).Steady := fun e n => rules.parse_steady e n
  -- the parts of a sequence or of a choice that have ended are steady as a whole
  have parts : ∀ {α : Type} {m : Nat} (ps : Fin m → Expr Λ τ α) (n : Nat) (k : Nat),
      List.Forall₂ (Parser.Alike fun i k : ι => i = k)
        ((List.ofFn fun k => rules.parse (ps k) n).take k)
        ((List.ofFn fun k => rules.parse (ps k) n).take k) := fun ps n k =>
    List.forall₂_take k (forall₂_ofFn fun k => steady (ps k) n)
  cases h with
  | map | flatMap | oneOf | optional | ref => exact .of_guards_eq rfl
  | flatMapNext h => exact .of_guards_eq ((steady _ _).guards_of_ok h)
  | sequence k h =>
    exact .of_guards_eq
      (Parser.Steady.guards_of_ok (Parser.Alike.sequence (parts _ _ k)) h)
  | oneOfNext k h =>
    exact .of_guards_eq
      (Parser.Steady.guards_of_ok (Parser.Alike.oneOf (steady _ _) (parts _ _ k)) h)
  | repeated h => exact .of_guards_eq (h.guards_eq (steady _ _))
  | separatedItem h => exact .of_guards_eq (h.guards_eq (steady _ _) (steady _ _))
  | separator h hp =>
    exact .of_guards_eq (((steady _ _).guards_of_ok hp).trans
      (h.guards_eq (steady _ _) (steady _ _)))
  | guarded h => exact .of_enter h

/-- **A chain of steps.**  The counters have gone up by what the chain has entered. -/
theorem Active.entered {rules : Rules Λ τ} {x y : Invocation Λ τ ι} {gs : List Nat}
    (h : Active rules x gs y) : Entered x.state y.state gs := by
  induction h with
  | start => exact .of_guards_eq rfl
  | step _ hy ih => exact ih.trans hy.entered

/-- From idle guards, a counter is the number of active entries, and it is never above the
limit, nor above zero if the limit is below. -/
theorem Active.depth_eq {rules : Rules Λ τ} {x y : Invocation Λ τ ι} {gs : List Nat}
    (h : Active rules x gs y) (hx : x.state.Idle) (g : Nat) :
    (y.state.guardAt g).currentDepth = gs.count g ∧
      (y.state.guardAt g).currentDepth ≤ max (y.state.guardAt g).maxDepth 0 := by
  have hd : (y.state.guardAt g).currentDepth = gs.count g := by
    rw [h.entered.depth_eq, hx g]
    omega
  refine ⟨hd, ?_⟩
  by_cases hg : g ∈ gs
  · have := h.entered.within g hg
    omega
  · rw [List.count_eq_zero.mpr hg] at hd
    omega

end Steps

/-! ## The run of a guarded expression -/

section Guarded

variable [Headroom]

end Guarded

/-- A stack that runs out inside a guard.  With room to record it this is a failure; without,
the stack runs out once more, and the guard is left all the same. -/
example (i : ι) (reason again : String) :
    let exhausted : Parser ι α := Parser.raise (.stackExhausted reason)
    let s : RunState := { guards := #[{ maxDepth := 1 }] }
    @Parser.guarded ι α .ample 0 exhausted i s = .ok (.failure i 0) (s.record (.stackExhausted 1)) ∧
      @Parser.guarded ι α ⟨fun _ _ => some again⟩ 0 exhausted i s
        = .error (.fault (.stackExhausted again)) s :=
  ⟨rfl, rfl⟩

/-! ## The balance -/

section Balance

variable [DecidableEq ι] [Extent ι] [Terminal Λ ι] [Headroom]

end Balance

end Descent
