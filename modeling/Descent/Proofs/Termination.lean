import Descent.Grammar.Reference
import Descent.Proofs.Congruence
import Descent.Proofs.Reading
import Descent.Proofs.Suffix
import Mathlib.Algebra.BigOperators.Group.List.Basic
import Mathlib.Data.Set.Card

/-!
# Grammars whose cycles are guarded terminate

A rule may refer to itself before anything is read, so reading may go on for ever.  It does
not if every cycle of references passes a guard.  Two things have to be seen.

Repetitions come to an end because each round that goes on has less left to read.  For that
the parser that is repeated must never hand on more than it was given, and this is carried
through all combinators together with the rest of what a run does (`Run.Ends`): it ends, in
an outcome or in a fault that a leaf raised, with the guards that it found, and what it
hands on is its input or shorter.

Calls come to an end although nothing may be consumed between one and the next.  A guard
that is entered has less room inside (`totalRoom`), and without entering a guard the rules
can call each other only along open references, which make no cycle; so a rule that is
called has fewer rules below it (`Rules.rank`).  Together these bound the calls that are
ever active at one time (`Rules.call_ends`), by a number that depends on the guards and on
how many rules there are, and not on the input.

All this is proved for lists of characters and carried over to cursors by
`Rules.parse_alike`.
-/

namespace Descent

variable {ι α β : Type}

/-! ## Faults of leaves -/

/-- An expression raises a fault if the fault stands at one of its leaves, counting the
leaves of what the factories of `flatMap` make. -/
def Expr.Raises {Λ : Type → Type} {ρ : Type} {τ : ρ → Type} (f : Fault) {α : Type} :
    Expr Λ τ α → Prop
  | .terminal _ => False
  | .succeed _ => False
  | .fail _ => False
  | .raise f' => f' = f
  | .map _ p => Raises f p
  | .flatMap p k => Raises f p ∨ ∃ a, Raises f (k a)
  | .sequence _ ps => ∃ k, Raises f (ps k)
  | .oneOf p _ ps => Raises f p ∨ ∃ k, Raises f (ps k)
  | .optional p => Raises f p
  | .repeated _ p => Raises f p
  | .separated p q => Raises f p ∨ Raises f q
  | .ref _ => False
  | .guarded _ p => Raises f p

/-! ## Runs that end -/

/-- The input `r` is the input `i`, or less is left of it. -/
def Consumes [Extent ι] (i r : ι) : Prop := r = i ∨ extent r < extent i

theorem Consumes.refl [Extent ι] (i : ι) : Consumes i i := Or.inl rfl

theorem Consumes.trans [Extent ι] {i j r : ι} (h : Consumes i j) (h' : Consumes j r) :
    Consumes i r := by
  rcases h with rfl | h
  · exact h'
  · rcases h' with rfl | h'
    · exact Or.inr h
    · exact Or.inr (Nat.lt_trans h' h)

theorem Consumes.extent_lt [Extent ι] {i r : ι} (h : Consumes i r) (hne : r ≠ i) :
    extent r < extent i := h.resolve_left hne

/-- A run on `i` ends in an outcome or in one of the faults `F`, and the guards are then
`G`; what a success hands on is `i` or shorter. -/
inductive Run.Ends [Extent ι] (G : Array DepthGuard) (F : Fault → Prop) (i : ι) :
    EStateM.Result Halt RunState (Outcome ι α) → Prop where
  | success {r : ι} (hr : Consumes i r) (a : α) {s : RunState} (hs : s.guards = G) :
      Ends G F i (.ok (.success r a) s)
  | failure (j : ι) (l : Int) {s : RunState} (hs : s.guards = G) :
      Ends G F i (.ok (.failure j l) s)
  | fault {f : Fault} (hf : F f) {s : RunState} (hs : s.guards = G) :
      Ends G F i (.error (.fault f) s)

/-- What was reached from a later input was reached from an earlier one. -/
theorem Run.Ends.of_consumes [Extent ι] {G : Array DepthGuard} {F : Fault → Prop} {i j : ι}
    (hij : Consumes i j) {x : EStateM.Result Halt RunState (Outcome ι α)}
    (h : Run.Ends G F j x) : Run.Ends G F i x := by
  cases h with
  | success hr a hs => exact .success (hij.trans hr) a hs
  | failure k l hs => exact .failure k l hs
  | fault hf hs => exact .fault hf hs

/-- All runs of a parser from the guards `G` end. -/
def Parser.Ends [Extent ι] (G : Array DepthGuard) (F : Fault → Prop) (p : Parser ι α) :
    Prop :=
  ∀ ⦃i : ι⦄ ⦃s : RunState⦄, s.guards = G → Run.Ends G F i (p i s)

/-! ## The combinators -/

namespace Parser
namespace Ends

variable [Extent ι] {G : Array DepthGuard} {F : Fault → Prop} {p : Parser ι α}

theorem succeed (a : α) : (Parser.succeed a : Parser ι α).Ends G F :=
  fun i _ hs => .success (.refl i) a hs

theorem fail (l : Int) : (Parser.fail l : Parser ι α).Ends G F :=
  fun i _ hs => .failure i l hs

theorem raise {f : Fault} (hf : F f) : (Parser.raise f : Parser ι α).Ends G F :=
  fun _ _ hs => .fault hf hs

theorem flatMap {f : α → Parser ι β} (hp : p.Ends G F) (hf : ∀ a, (f a).Ends G F) :
    (Parser.flatMap p f).Ends G F := by
  intro i s hs
  have h := hp (i := i) hs
  rw [flatMap_apply]
  generalize p i s = x at h ⊢
  cases h with
  | success hr a hs' => exact (hf a hs').of_consumes hr
  | failure j l hs' => exact .failure j l hs'
  | fault hf hs' => exact .fault hf hs'

theorem map (f : α → β) (hp : p.Ends G F) : (Parser.map f p).Ends G F := by
  rw [map_eq_flatMap]
  exact hp.flatMap fun a => succeed (f a)

theorem optional (hp : p.Ends G F) : (Parser.optional p).Ends G F := by
  intro i s hs
  have h := hp (i := i) hs
  rw [optional_apply]
  generalize p i s = x at h ⊢
  cases h with
  | success hr a hs' => exact .success hr (some a) hs'
  | failure j l hs' => exact .success (.refl i) none hs'
  | fault hf hs' => exact .fault hf hs'

theorem sequenceFrom {ps : List (Parser ι α)} (h : ∀ p ∈ ps, p.Ends G F)
    (values : Array α) : (Parser.sequenceFrom values ps).Ends G F := by
  induction ps generalizing values with
  | nil => exact succeed values.toList
  | cons p ps ih =>
    obtain ⟨hp, hps⟩ := List.forall_mem_cons.mp h
    rw [sequenceFrom_cons]
    exact hp.flatMap fun a => ih hps (values.push a)

theorem oneOfFrom {ps : List (Parser ι α)} (h : ∀ p ∈ ps, p.Ends G F) (j : ι) (l : Int) :
    (Parser.oneOfFrom j l ps).Ends G F := by
  induction ps generalizing j l with
  | nil => exact fun _ _ hs => .failure j l hs
  | cons p ps ih =>
    obtain ⟨hp, hps⟩ := List.forall_mem_cons.mp h
    intro i s hs
    have h := hp (i := i) hs
    rw [oneOfFrom_cons]
    generalize p i s = x at h ⊢
    cases h with
    | success hr a hs' => exact .success hr a hs'
    | failure j' l' hs' =>
      simp only
      split
      · exact ih hps j' l' hs'
      · exact ih hps j l hs'
    | fault hf hs' => exact .fault hf hs'

theorem oneOf {ps : List (Parser ι α)} (hp : p.Ends G F) (h : ∀ p ∈ ps, p.Ends G F) :
    (Parser.oneOf p ps).Ends G F := by
  intro i s hs
  have h' := hp (i := i) hs
  rw [oneOf_apply]
  generalize p i s = x at h' ⊢
  cases h' with
  | success hr a hs' => exact .success hr a hs'
  | failure j l hs' => exact oneOfFrom h j l hs'
  | fault hf hs' => exact .fault hf hs'

/-- A guarded parser ends if its body does from the guards inside, in case there is an
inside. -/
theorem guarded (g : Nat)
    (hp : ∀ inside, (guardOf G g).enter = .ok inside →
      p.Ends (G.setIfInBounds g inside) F) : (Parser.guarded g p).Ends G F := by
  intro i s hs
  rw [Parser.guarded, Run.within_ample]
  cases he : (s.guardAt g).enter with
  | error e => exact .failure i 0 hs
  | ok inside =>
    have hin : (s.setGuard g inside).guards = G.setIfInBounds g inside := by
      rw [RunState.guards_setGuard, hs]
    have h := hp inside (by rw [← guardAt_eq_guardOf hs, he]) (i := i) hin
    have hleave : ∀ {s' : RunState}, s'.guards = G.setIfInBounds g inside →
        (Run.leave g s').guards = G := fun hs' => by
      rw [Run.guards_leave he (hs'.trans hin.symm), hs]
    simp only
    generalize p i (s.setGuard g inside) = x at h ⊢
    cases h with
    | success hr a hs' => exact .success hr a (hleave hs')
    | failure j l hs' => exact .failure j l (hleave hs')
    | @fault f hf s' hs' =>
      cases f with
      | stackExhausted reason => exact .failure i 0 (hleave hs')
      | _ => exact .fault hf (hleave hs')

section Repetition

variable [DecidableEq ι] {q : Parser ι β}

/-- A round that goes on has consumed something, so the rounds do not run out. -/
theorem repeatFrom (hp : p.Ends G F) (minimum rounds : Nat) (values : Array α) {i : ι}
    {s : RunState} (hs : s.guards = G) (hi : extent i < rounds) :
    Run.Ends G F i (Parser.repeatFrom minimum p rounds values i s) := by
  induction rounds generalizing values i s with
  | zero => exact absurd hi (Nat.not_lt_zero _)
  | succ rounds ih =>
    have h := hp (i := i) hs
    rw [repeatFrom_succ]
    generalize p i s = x at h ⊢
    cases h with
    | @success r hr a s' hs' =>
      simp only
      split
      · exact .success (.refl i) _ hs'
      · next hne =>
        have := hr.extent_lt hne
        exact (ih (values.push a) hs' (by omega)).of_consumes hr
    | failure j l hs' =>
      simp only
      split
      · exact .failure j l hs'
      · exact .success (.refl i) _ hs'
    | fault hf hs' => exact .fault hf hs'

/-- The same for items and separators; `c` is what is left after the last item, and both
it and the input of the round were reached from `i₀`. -/
theorem separatedFrom (hp : p.Ends G F) (hq : q.Ends G F) (rounds : Nat)
    (values : Array α) {i₀ c i : ι} (hc : Consumes i₀ c) (h₀ : Consumes i₀ i)
    {s : RunState} (hs : s.guards = G) (hi : extent i < rounds) :
    Run.Ends G F i₀ (Parser.separatedFrom p q rounds values c i s) := by
  induction rounds generalizing values c i s with
  | zero => exact absurd hi (Nat.not_lt_zero _)
  | succ rounds ih =>
    have h := hp (i := i) hs
    rw [separatedFrom_succ]
    generalize p i s = x at h ⊢
    cases h with
    | @success r hr a s' hs' =>
      have h := hq (i := r) hs'
      simp only
      generalize q r s' = y at h ⊢
      cases h with
      | @success next hnext b s'' hs'' =>
        simp only
        split
        · exact .success (h₀.trans hr) _ hs''
        · next hne =>
          have := (hr.trans hnext).extent_lt hne
          exact ih (values.push a) (h₀.trans hr) (h₀.trans (hr.trans hnext)) hs''
            (by omega)
      | failure j l hs'' => exact .success (h₀.trans hr) _ hs''
      | fault hf hs'' => exact .fault hf hs''
    | failure j l hs' => exact .success hc _ hs'
    | fault hf hs' => exact .fault hf hs'

theorem repeated (hp : p.Ends G F) (minimum : Nat) :
    (Parser.repeated minimum p).Ends G F :=
  fun _ _ hs => hp.repeatFrom minimum _ #[] hs (Nat.lt_succ_self _)

theorem separated (hp : p.Ends G F) (hq : q.Ends G F) :
    (Parser.separated p q).Ends G F :=
  fun i _ hs => hp.separatedFrom hq _ #[] (.refl i) (.refl i) hs (Nat.lt_succ_self _)

end Repetition

end Ends
end Parser

/-! ## The room of the guards and the rank of a rule -/

/-- How many more entries the guards of a table admit, all in all. -/
def totalRoom (G : Array DepthGuard) : Nat :=
  (G.toList.map fun g => (g.maxDepth - g.currentDepth).toNat).sum

/-- Inside a guard there is less room. -/
theorem totalRoom_lt_of_enter {G : Array DepthGuard} {g : Nat} {inside : DepthGuard}
    (h : (Parser.guardOf G g).enter = .ok inside) :
    totalRoom (G.setIfInBounds g inside) < totalRoom G := by
  have hg : g < G.size := RunState.lt_size_of_enter (s := { guards := G }) h
  rw [show Parser.guardOf G g = G[g] from RunState.guardAt_of_lt hg] at h
  obtain ⟨hlt, rfl⟩ := DepthGuard.of_enter_eq_ok h
  have hset : ∀ d : DepthGuard, totalRoom (G.setIfInBounds g d)
      = ((G.toList.map fun g => (g.maxDepth - g.currentDepth).toNat).take g).sum
        + (d.maxDepth - d.currentDepth).toNat
        + ((G.toList.map fun g => (g.maxDepth - g.currentDepth).toNat).drop (g + 1)).sum := by
    intro d
    have hlen : g < (G.toList.map fun g => (g.maxDepth - g.currentDepth).toNat).length := by
      simpa using hg
    rw [totalRoom, Array.toList_setIfInBounds, List.map_set, List.sum_set, if_pos hlen]
  have hself : G.setIfInBounds g G[g] = G := by
    simp [Array.setIfInBounds, hg]
  have hG := hset G[g]
  rw [hself] at hG
  rw [hset, hG]
  simp only
  omega

section Rank

variable {Λ : Type → Type} {ρ : Type} {τ : ρ → Type} (rules : Rules Λ τ)

/-- How many rules are reached from a rule by open references. -/
noncomputable def Rules.rank (r : ρ) : Nat :=
  {r' | Relation.TransGen rules.OpenReference r' r}.ncard

variable {rules} [Finite ρ]

/-- An open reference leads to a rule with fewer rules below it. -/
theorem Rules.rank_lt_rank (h : rules.CyclesGuarded) {r r' : ρ}
    (hr : rules.OpenReference r r') : rules.rank r < rules.rank r' := by
  refine Set.ncard_lt_ncard ?_
  refine (Set.ssubset_iff_of_subset fun x hx => hx.tail hr).mpr ⟨r, .single hr, h r⟩

theorem Rules.rank_lt_card (h : rules.CyclesGuarded) (r : ρ) :
    rules.rank r < Nat.card ρ := by
  refine Set.ncard_lt_card fun huniv => h r ?_
  have hr : r ∈ {r' | Relation.TransGen rules.OpenReference r' r} := by
    rw [huniv]
    exact Set.mem_univ r
  exact hr

end Rank

/-! ## Expressions and rules -/

section Eval

variable {Λ : Type → Type} {ρ : Type} {τ : ρ → Type} [DecidableEq ι] [Extent ι]
  [Terminal Λ ι] {F : Fault → Prop}

/-- The terminals end: what they hand on is their input or shorter, and their faults are
among `F`. -/
def Terminal.Ends (Λ : Type → Type) (ι : Type) [Extent ι] [Terminal Λ ι]
    (F : Fault → Prop) : Prop :=
  ∀ {α : Type} (t : Λ α) (G : Array DepthGuard),
    Parser.Ends (ι := ι) G F fun i => Run.recorded (Terminal.read t i)

/-- **An expression ends**, if the rules that it refers to openly end from the guards `G`,
and all rules end from guards with less room. -/
theorem Expr.eval_ends (hread : Terminal.Ends Λ ι F) {call : ∀ r : ρ, Parser ι (τ r)}
    {α : Type} (e : Expr Λ τ α) {G : Array DepthGuard} (hraise : ∀ f, e.Raises f → F f)
    (hopen : ∀ r, e.RefersOpenly r → (call r).Ends G F)
    (hinside : ∀ H, totalRoom H < totalRoom G → ∀ r, (call r).Ends H F) :
    (e.eval call).Ends G F := by
  induction e generalizing G with
  | terminal t => exact hread t G
  | succeed a => exact .succeed a
  | fail l => exact .fail l
  | raise f => exact .raise (hraise f rfl)
  | map f p ih => exact .map f (ih hraise hopen hinside)
  | flatMap p k ihp ihk =>
    exact .flatMap (ihp (fun f h => hraise f (.inl h)) (fun r h => hopen r (.inl h)) hinside)
      fun a => ihk a (fun f h => hraise f (.inr ⟨a, h⟩)) (fun r h => hopen r (.inr ⟨a, h⟩))
        hinside
  | sequence n ps ih =>
    refine .sequenceFrom (List.forall_mem_ofFn_iff.mpr fun k => ?_) #[]
    exact ih k (fun f h => hraise f ⟨k, h⟩) (fun r h => hopen r ⟨k, h⟩) hinside
  | oneOf p n ps ihp ih =>
    refine .oneOf (ihp (fun f h => hraise f (.inl h)) (fun r h => hopen r (.inl h)) hinside)
      (List.forall_mem_ofFn_iff.mpr fun k => ?_)
    exact ih k (fun f h => hraise f (.inr ⟨k, h⟩)) (fun r h => hopen r (.inr ⟨k, h⟩)) hinside
  | optional p ih => exact .optional (ih hraise hopen hinside)
  | repeated m p ih => exact .repeated (ih hraise hopen hinside) m
  | separated p q ihp ihq =>
    exact .separated
      (ihp (fun f h => hraise f (.inl h)) (fun r h => hopen r (.inl h)) hinside)
      (ihq (fun f h => hraise f (.inr h)) (fun r h => hopen r (.inr h)) hinside)
  | ref r => exact hopen r rfl
  | guarded g p ih =>
    -- inside the guard every reference is covered by the smaller room
    refine .guarded g fun inside he => ?_
    have hlt := totalRoom_lt_of_enter he
    exact ih hraise (fun r _ => hinside _ hlt r)
      fun H hH => hinside H (Nat.lt_trans hH hlt)

/-- **The calls of rules end**, if more are granted than the room of the guards and the rank
of the rule require. -/
theorem Rules.call_ends [Finite ρ] {rules : Rules Λ τ} (hcycles : rules.CyclesGuarded)
    (hread : Terminal.Ends Λ ι F) (hraise : ∀ r f, (rules r).Raises f → F f) {n : Nat}
    {G : Array DepthGuard} {r : ρ} (hn : totalRoom G * Nat.card ρ + rules.rank r < n) :
    (rules.call (ι := ι) n r).Ends G F := by
  induction n generalizing G r with
  | zero => exact absurd hn (Nat.not_lt_zero _)
  | succ n ih =>
    rw [rules.call_succ]
    refine (rules r).eval_ends hread (hraise r) (fun r' hr' => ih ?_) fun H hH r' => ih ?_
    · have : rules.rank r' < rules.rank r := Rules.rank_lt_rank hcycles hr'
      omega
    · have hr' : rules.rank r' < Nat.card ρ := Rules.rank_lt_card hcycles r'
      have hroom : (totalRoom H + 1) * Nat.card ρ ≤ totalRoom G * Nat.card ρ :=
        Nat.mul_le_mul_right _ hH
      rw [Nat.succ_mul] at hroom
      omega

/-- An expression over the rules ends, if a call is granted for each rule and each entry
that the guards admit, and one more for each rule. -/
theorem Rules.parse_ends [Finite ρ] {rules : Rules Λ τ} (hcycles : rules.CyclesGuarded)
    (hread : Terminal.Ends Λ ι F) (hraise : ∀ r f, (rules r).Raises f → F f) {α : Type}
    (e : Expr Λ τ α) (he : ∀ f, e.Raises f → F f) {G : Array DepthGuard} {calls : Nat}
    (hcalls : (totalRoom G + 1) * Nat.card ρ ≤ calls) :
    (rules.parse (ι := ι) e calls).Ends G F := by
  have hends : ∀ H r, totalRoom H ≤ totalRoom G →
      (rules.call (ι := ι) calls r).Ends H F := by
    intro H r hH
    refine Rules.call_ends hcycles hread hraise ?_
    have hr : rules.rank r < Nat.card ρ := Rules.rank_lt_card hcycles r
    have hroom : totalRoom H * Nat.card ρ ≤ totalRoom G * Nat.card ρ :=
      Nat.mul_le_mul_right _ hH
    rw [Nat.succ_mul] at hcalls
    omega
  exact e.eval_ends hread he (fun r _ => hends G r (Nat.le_refl _))
    fun H hH r => hends H r (Nat.le_of_lt hH)

end Eval

/-! ## Texts -/

theorem consumes_of_suffix {l r : List Char} (h : r <:+ l) : Consumes l r := by
  rcases Nat.eq_or_lt_of_le h.length_le with heq | hlt
  · exact Or.inl (h.eq_of_length heq)
  · exact Or.inr hlt

/-- The primitives take characters off the front of a list, and raise nothing. -/
theorem Primitive.terminal_ends (F : Fault → Prop) :
    Terminal.Ends Primitive (List Char) F := by
  intro α t G l s hs
  have hread : Terminal.read t l = ([], .ok (t.readList l)) := rfl
  simp only [hread, Run.recorded_nil]
  cases ho : t.readList l with
  | success r a => exact .success (consumes_of_suffix (suffix_of_readList ho)) a hs
  | failure j l => exact .failure j l hs

variable {ρ : Type} {τ : ρ → Type}

/-- **Grammars whose cycles are guarded terminate.**  Take finitely many rules that refer to
each other, so that each cycle of references passes a guard, an expression over them, and a
cursor that stands inside its text or at its end.  Reading ends, in an outcome or in a fault
that a leaf of the grammar raises; and however many calls are granted beyond a number that
depends on the guards and on how many rules there are, the answer is the same. -/
theorem Rules.parse_terminates [Finite ρ] (rules : Rules Primitive τ)
    (hcycles : rules.CyclesGuarded) {α : Type} (e : Expr Primitive τ α) (c : Cursor)
    (h₀ : 0 ≤ c.pos) (h₁ : c.pos ≤ c.source.size) (s : RunState) :
    (∃ o s', ∀ calls, (totalRoom s.guards + 1) * Nat.card ρ ≤ calls →
      rules.parse e calls c s = .ok o s') ∨
    ∃ f s', (e.Raises f ∨ ∃ r, (rules r).Raises f) ∧
      ∀ calls, (totalRoom s.guards + 1) * Nat.card ρ ≤ calls →
        rules.parse e calls c s = .error (.fault f) s' := by
  have hends := Rules.parse_ends (ι := List Char) hcycles
    (Primitive.terminal_ends fun f => e.Raises f ∨ ∃ r, (rules r).Raises f)
    (fun r f h => .inr ⟨r, h⟩) e (fun f h => .inl h)
    (Nat.le_refl ((totalRoom s.guards + 1) * Nat.card ρ)) (i := c.remainder) (s := s) rfl
  have halike := rules.parse_leaving e ((totalRoom s.guards + 1) * Nat.card ρ)
    c.remainder_suffix s
  rw [Cursor.leaving_remainder h₀ h₁] at halike
  have hmore := fun calls h => rules.parse_refines (ι := Cursor) e
    (n := (totalRoom s.guards + 1) * Nat.card ρ) (m := calls) h c
  generalize rules.parse e _ c.remainder s = y at hends halike
  generalize hx : rules.parse e _ c s = x at halike
  cases halike with
  | success _ a _ _ => exact .inl ⟨_, _, fun calls h => (hmore calls h).eq_of_ok hx⟩
  | failure _ l _ _ => exact .inl ⟨_, _, fun calls h => (hmore calls h).eq_of_ok hx⟩
  | halt h _ _ =>
    cases hends with
    | fault hf _ => exact .inr ⟨_, _, hf, fun calls h => (hmore calls h).eq_of_fault hx⟩

/-- Two rules, neither of which reads anything before it refers to the other.  The first is
guarded, the second repeats the first. -/
def leftRecursive : Rules Primitive (fun _ : Bool => Nat)
  | true => .guarded 0
      (.firstOf (.map2 (fun n _ => n + 1) (.ref false) (.literal "a")) [.succeed 0])
  | false => .map List.sum (.many (.ref true))

/-- With a limit of two, six calls suffice for every text; no leaf raises a fault, so there is
an outcome. -/
theorem leftRecursive_terminates :
    leftRecursive.CyclesGuarded ∧
      ∃ o s', ∀ calls, 6 ≤ calls →
        leftRecursive.parse (.ref true) calls ({ source := #['a', 'b'], pos := 1 } : Cursor)
          { guards := #[{ maxDepth := 2 }] } = .ok o s' := by
  have hopen : ∀ r r', leftRecursive.OpenReference r r' → r = true ∧ r' = false := by
    intro r r' h
    cases r' with
    | true => exact absurd h id
    | false => exact ⟨h.symm, rfl⟩
  have hcycles : leftRecursive.CyclesGuarded := by
    intro r h
    have hends : ∀ r', Relation.TransGen leftRecursive.OpenReference r r' →
        r = true ∧ r' = false := by
      intro r' h
      induction h with
      | single h => exact hopen _ _ h
      | tail _ h ih => exact ⟨ih.1, (hopen _ _ h).2⟩
    obtain ⟨h₁, h₂⟩ := hends r h
    exact absurd (h₁.symm.trans h₂) (by decide)
  have hraises : ∀ r f, ¬ (leftRecursive r).Raises f := by
    intro r f
    cases r with
    | true =>
      rintro (h | ⟨k, h⟩)
      · rcases h with h | ⟨_, h⟩ <;> exact h
      · rcases Fin.fin_one_eq_zero k with rfl
        exact h
    | false => exact id
  have hcard : Nat.card Bool = 2 := by simp
  refine ⟨hcycles, ?_⟩
  rcases leftRecursive.parse_terminates hcycles (.ref true) { source := #['a', 'b'], pos := 1 }
    (by decide) (by decide) { guards := #[{ maxDepth := 2 }] } with h | ⟨f, _, hf, _⟩
  · rw [hcard] at h
    exact h
  · rcases hf with hf | ⟨r, hf⟩
    · exact absurd hf id
    · exact absurd hf (hraises r f)

end Descent
