import Descent.Proofs.Language
import Mathlib.Order.Bounds.Defs

/-!
# How far into its input a failure lies

The location of a failure counts from the input of the parser that saw the mismatch.  A
literal of `n` characters fails at one of the locations `1` to `n`, a run and the end of a
text at `0`; and no combinator makes a location of its own.  So there is a bound for the
locations of all failures of a grammar, taken over the terminals at which it can fail
(`Parser.LocatesWithin`).  Repetitions and optional parts do not count, since they never
fail, and neither does what comes after a part that always fails first.

A grammar that cannot fail far into its input never has the last word in a choice with one
that can.
-/

namespace Descent

/-! ## Prefixes of a literal -/

namespace Text

/-- What a list shares with another is a prefix of both. -/
theorem take_commonPrefix_prefix (a b : List Char) : a.take (commonPrefix a b) <+: b := by
  induction a generalizing b with
  | nil => simp
  | cons c a ih =>
    cases b with
    | nil => simp
    | cons c' b =>
      rw [commonPrefix_cons]
      split
      · next hc => exact List.cons_prefix_cons.mpr ⟨hc, ih b⟩
      · exact List.nil_prefix

/-- Two lists share every common prefix of theirs. -/
theorem length_le_commonPrefix {p a b : List Char} (ha : p <+: a) (hb : p <+: b) :
    p.length ≤ commonPrefix a b := by
  induction p generalizing a b with
  | nil => exact Nat.zero_le _
  | cons c p ih =>
    obtain ⟨a, rfl⟩ := ha
    obtain ⟨b, rfl⟩ := hb
    rw [List.cons_append, List.cons_append, commonPrefix_cons, if_pos rfl]
    exact Nat.succ_le_succ (ih (List.prefix_append p a) (List.prefix_append p b))

/-- The number of characters that two lists share is the length of their longest common
prefix. -/
theorem commonPrefix_isGreatest (a b : List Char) :
    IsGreatest {k | ∃ p, p <+: a ∧ p <+: b ∧ p.length = k} (commonPrefix a b) := by
  refine ⟨⟨a.take (commonPrefix a b), List.take_prefix _ _, take_commonPrefix_prefix a b, ?_⟩, ?_⟩
  · exact List.length_take_of_le (commonPrefix_le_left a b)
  · rintro k ⟨p, ha, hb, rfl⟩
    exact length_le_commonPrefix ha hb

/-- Characters beyond the length of a list have no part in what it shares with another. -/
theorem commonPrefix_take (a b : List Char) :
    commonPrefix a (b.take a.length) = commonPrefix a b := by
  induction a generalizing b with
  | nil => simp
  | cons c a ih =>
    cases b with
    | nil => rfl
    | cons c' b =>
      rw [List.length_cons, List.take_succ_cons, commonPrefix_cons, commonPrefix_cons, ih]

/-- A list that is no prefix of another shares less than all of its characters with it. -/
theorem commonPrefix_lt {a b : List Char} (h : ¬ a <+: b) : commonPrefix a b < a.length := by
  induction a generalizing b with
  | nil => exact absurd List.nil_prefix h
  | cons c a ih =>
    cases b with
    | nil => exact Nat.zero_lt_succ _
    | cons c' b =>
      rw [commonPrefix_cons]
      split
      · next hc =>
        refine Nat.succ_lt_succ (ih fun hp => h ?_)
        exact List.cons_prefix_cons.mpr ⟨hc, hp⟩
      · exact Nat.zero_lt_succ _

end Text

namespace Parser

variable {ι α β : Type}

/-- No failure of the parser has a location above `k`. -/
def LocatesWithin (p : Parser ι α) (k : Int) : Prop :=
  ∀ i s j l s', p i s = .ok (.failure j l) s' → l ≤ k

namespace LocatesWithin

variable {p : Parser ι α} {q : Parser ι β} {k : Int}

theorem mono {k' : Int} (hp : p.LocatesWithin k) (hk : k ≤ k') : p.LocatesWithin k' :=
  fun i s j l s' h => Int.le_trans (hp i s j l s' h) hk

theorem succeed (a : α) : (Parser.succeed a : Parser ι α).LocatesWithin k := by
  intro i s j l s' h
  cases h

theorem raise (f : Fault) : (Parser.raise f : Parser ι α).LocatesWithin k := by
  intro i s j l s' h
  cases h

theorem flatMap {f : α → Parser ι β} (hp : p.LocatesWithin k)
    (hf : ∀ a, (f a).LocatesWithin k) : (Parser.flatMap p f).LocatesWithin k := by
  intro i s j l s' h
  rw [flatMap_apply] at h
  rcases hx : p i s with ⟨o, t⟩ | ⟨e, t⟩
  · rw [hx] at h
    cases o with
    | success r a => exact hf a r t j l s' h
    | failure j' l' =>
      cases h
      exact hp i s j l s' hx
  · rw [hx] at h
    cases h

theorem map (f : α → β) (hp : p.LocatesWithin k) : (Parser.map f p).LocatesWithin k := by
  rw [map_eq_flatMap]
  exact hp.flatMap fun a => succeed (f a)

theorem both (hp : p.LocatesWithin k) (hq : q.LocatesWithin k) :
    (Parser.both p q).LocatesWithin k := hp.flatMap fun _ => hq.map _

theorem preceded (hp : p.LocatesWithin k) (hq : q.LocatesWithin k) :
    (Parser.preceded p q).LocatesWithin k := (hp.both hq).map _

theorem terminated (hp : p.LocatesWithin k) (hq : q.LocatesWithin k) :
    (Parser.terminated p q).LocatesWithin k := (hp.both hq).map _

theorem sequence {ps : List (Parser ι α)} (h : ∀ p ∈ ps, p.LocatesWithin k) :
    (Parser.sequence ps).LocatesWithin k := by
  induction ps with
  | nil => exact succeed []
  | cons p ps ih =>
    obtain ⟨hp, hps⟩ := List.forall_mem_cons.mp h
    rw [sequence_cons]
    exact (hp.both (ih hps)).map _

/-- An optional part never fails. -/
theorem optional : (Parser.optional p).LocatesWithin k := by
  intro i s j l s' h
  rw [optional_apply] at h
  rcases hx : p i s with ⟨⟨r, a⟩ | ⟨j', l'⟩, t⟩ | ⟨e, t⟩
  · rw [hx] at h
    cases h
  · rw [hx] at h
    cases h
  · rw [hx] at h
    cases h

theorem separatedFrom_ne_failure [DecidableEq ι] (rounds : Nat) (values : Array α) (c i j : ι)
    (l : Int) (s s' : RunState) :
    separatedFrom p q rounds values c i s ≠ .ok (.failure j l) s' := by
  induction rounds generalizing values c i s with
  | zero =>
    intro h
    cases h
  | succ rounds ih =>
    intro h
    rw [separatedFrom_succ] at h
    rcases hx : p i s with ⟨⟨r, a⟩ | ⟨j', l'⟩, t⟩ | ⟨e, t⟩
    · rw [hx] at h
      rcases hy : q r t with ⟨⟨m, b⟩ | ⟨j', l'⟩, t'⟩ | ⟨e, t'⟩
      · simp only [hy] at h
        split at h
        · cases h
        · exact ih _ _ _ _ h
      · simp only [hy] at h
        cases h
      · simp only [hy] at h
        cases h
    · rw [hx] at h
      cases h
    · rw [hx] at h
      cases h

/-- A separated repetition never fails. -/
theorem separated [DecidableEq ι] [Extent ι] : (Parser.separated p q).LocatesWithin k :=
  fun i s j l s' h => absurd h (separatedFrom_ne_failure _ _ i i j l s s')

theorem oneOfFrom {ps : List (Parser ι α)} (hps : ∀ p ∈ ps, p.LocatesWithin k) (j : ι) (l : Int)
    (hl : l ≤ k) : (Parser.oneOfFrom j l ps).LocatesWithin k := by
  induction ps generalizing j l with
  | nil =>
    intro i s j' l' s' h
    cases h
    exact hl
  | cons p ps ih =>
    obtain ⟨hp, hps⟩ := List.forall_mem_cons.mp hps
    intro i s j' l' s' h
    rw [oneOfFrom_cons] at h
    rcases hx : p i s with ⟨⟨r, a⟩ | ⟨j₁, l₁⟩, t⟩ | ⟨e, t⟩
    · rw [hx] at h
      cases h
    · rw [hx] at h
      simp only at h
      split at h
      · exact ih hps j₁ l₁ (hp i s j₁ l₁ t hx) i t j' l' s' h
      · exact ih hps j l hl i t j' l' s' h
    · rw [hx] at h
      cases h

theorem oneOf {ps : List (Parser ι α)} (hp : p.LocatesWithin k)
    (hps : ∀ p ∈ ps, p.LocatesWithin k) : (Parser.oneOf p ps).LocatesWithin k := by
  intro i s j l s' h
  rw [oneOf_apply] at h
  rcases hx : p i s with ⟨⟨r, a⟩ | ⟨j₁, l₁⟩, t⟩ | ⟨e, t⟩
  · rw [hx] at h
    cases h
  · rw [hx] at h
    exact oneOfFrom hps j₁ l₁ (hp i s j₁ l₁ t hx) i t j l s' h
  · rw [hx] at h
    cases h

end LocatesWithin

/-- What a parser refuses it refuses at a location within its bound. -/
theorem Refuses.fails_within {p : Parser ι α} {k : Int} {G : Array DepthGuard} {i : ι}
    (h : p.Refuses G i) (hp : p.LocatesWithin k) : ∃ j l, p.Fails G i j l ∧ l ≤ k := by
  obtain ⟨j, l, h⟩ := h
  obtain ⟨s', hs', -⟩ := h { guards := G } rfl
  exact ⟨j, l, h, hp i _ j l s' hs'⟩

/-! ## The primitives -/

section Terminals

variable {ρ : Type} {τ : ρ → Type} (call : ∀ r, Parser (List Char) (τ r))

/-- A value that is checked after it was read is refused by a fault and not by a failure. -/
theorem LocatesWithin.mapExcept {k : Int} (e : Expr Primitive τ α) (f : α → Except Fault β)
    (h : (e.eval call).LocatesWithin k) : ((Expr.mapExcept f e).eval call).LocatesWithin k := by
  refine h.flatMap fun a => ?_
  show ((Expr.ofExcept (f a)).eval call).LocatesWithin k
  cases f a with
  | ok b => exact .succeed b
  | error e => exact .raise e

/-- A run fails on the input itself, at its first character. -/
theorem locatesWithin_run (cls : CharClass) :
    ((Expr.run cls : Expr Primitive τ Text).eval call).LocatesWithin 0 := by
  intro l s j i s' h
  have h : EStateM.Result.ok (Primitive.readList (.run cls false) l) (s.recordAll [])
      = .ok (.failure j i) s' := h
  rw [Primitive.readList] at h
  split at h
  · cases h
    exact Int.le_refl _
  · cases h

/-- Where a literal does not stand, it fails one character after what it shares with the
input. -/
theorem fails_literal (G : Array DepthGuard) {s : String} {l : List Char}
    (h : ¬ s.toList <+: l) :
    ((Expr.literal s : Expr Primitive τ Text).eval call).Fails G l l
      (Text.commonPrefix s.toList l + 1) := by
  have h' := yields_terminal call G (.literal (Text.ofString s)) l
  rw [Primitive.readList, if_neg (by rwa [List.isPrefixOf_iff_prefix, Text.toList_ofString]),
    Text.toList_ofString, ← Array.length_toList, Text.toList_ofString, Text.commonPrefix_take]
    at h'
  exact h'

/-- A literal fails within its length. -/
theorem locatesWithin_literal (s : String) :
    ((Expr.literal s : Expr Primitive τ Text).eval call).LocatesWithin s.toList.length := by
  intro l t j i t' h
  by_cases hl : s.toList <+: l
  · obtain ⟨r, rfl⟩ := hl
    obtain ⟨u, hu, -⟩ := reads_literal call t.guards s r t rfl
    rw [hu] at h
    cases h
  · obtain ⟨u, hu, -⟩ := fails_literal call t.guards hl t rfl
    rw [hu] at h
    cases h
    have := Text.commonPrefix_lt hl
    omega

end Terminals

end Parser
end Descent
