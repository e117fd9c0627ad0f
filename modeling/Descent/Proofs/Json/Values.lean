import Descent.Proofs.Json.Parts

/-!
# Values

The rule for values reads exactly the texts that the grammar derives, up to the level that
its guard still admits (`readsValues_value`).  A parser of inner values that does so up to
level `d` makes values that do so up to level `d + 1`, and the guard admits one level less
inside than outside; so the proof is an induction on the level.

Which alternative of a value can read is settled by the first character, so the order of
the alternatives does not matter, and each refuses what another one reads.
-/

namespace Descent
namespace Json

open Descent.Parser

/-! ## The alternatives -/

/-- Where all texts of its language begin otherwise, a parser refuses. -/
theorem refuses_of_head {α : Type} {p : Parser (List Char) α} {G : Array DepthGuard}
    {L : List Char → α → Prop} (P : Char → Prop) (h : p.Covers G L)
    (hL : ∀ t a, L t a → ∃ c t', t = c :: t' ∧ P c) {ch : Char} (hch : ¬ P ch)
    (r : List Char) : p.Refuses G (ch :: r) := by
  refine h.refuses ?_
  rintro t a r' ht heq
  obtain ⟨c, t', rfl, hc⟩ := hL t a ht
  obtain rfl : ch = c := (List.cons.inj heq).1
  exact hch hc

section Alternatives

variable {ρ : Type} {τ : ρ → Type} (call : ∀ r, Parser (List Char) (τ r))
variable (G : Array DepthGuard) {inner : Expr Primitive τ Value} {d : Nat} {ch : Char}

theorem refuses_literal {s : String} {c : Char} {cs : List Char} (hs : s.toList = c :: cs)
    (h : ch ≠ c) (r : List Char) :
    ((Expr.literal s : Expr Primitive τ Text).eval call).Refuses G (ch :: r) := by
  refine refuses_of_head (· = c) (covers_literal call G s) ?_ h r
  rintro t a ⟨rfl, _⟩
  exact ⟨c, cs, hs, rfl⟩

theorem refuses_string (h : ch ≠ '"') (r : List Char) :
    (Grammar.string.eval call : Parser (List Char) _).Refuses G (ch :: r) := by
  refine refuses_of_head (· = '"') (covers_string call G) ?_ h r
  rintro t v ⟨content, _, rfl, _⟩
  exact ⟨'"', _, rfl, rfl⟩

theorem refuses_number (h : ¬ (ch = '-' ∨ IsDigit ch)) (r : List Char) :
    (Grammar.number.eval call : Parser (List Char) _).Refuses G (ch :: r) := by
  refine refuses_of_head (fun c => c = '-' ∨ IsDigit c) (covers_number call G) ?_ h r
  rintro t v ⟨d, hd, _⟩
  exact hd.exists_cons

theorem refuses_object (h : ReadsValues (inner.eval call) G d) (hch : ch ≠ '\x7b')
    (r : List Char) : ((Grammar.object inner).eval call).Refuses G (ch :: r) := by
  refine refuses_of_head (· = '\x7b') (covers_object call G h) ?_ hch r
  rintro t v ⟨⟨t', rfl⟩, _⟩
  exact ⟨'\x7b', t', rfl, rfl⟩

theorem refuses_array (h : ReadsValues (inner.eval call) G d) (hch : ch ≠ '[')
    (r : List Char) : ((Grammar.array inner).eval call).Refuses G (ch :: r) := by
  refine refuses_of_head (· = '[') (covers_array call G h) ?_ hch r
  rintro t v ⟨⟨t', rfl⟩, _⟩
  exact ⟨'[', t', rfl, rfl⟩

/-- A value, before the guard is asked. -/
def unguarded (inner : Expr Primitive τ Value) : Expr Primitive τ Value :=
  .firstOf Grammar.string
    [Grammar.number, Grammar.object inner, Grammar.array inner, Grammar.null, Grammar.bool]

theorem covers_unguarded (h : ReadsValues (inner.eval call) G d) :
    ((unguarded inner).eval call).Covers G fun t v => ∃ n ≤ d + 1, Derives t v n := by
  have hnull := (covers_literal call G "null").map fun _ => Value.null
  have htrue := (covers_literal call G "true").map fun _ => Value.bool true
  have hfalse := (covers_literal call G "false").map fun _ => Value.bool false
  have hbool := Covers.oneOf htrue (Covers.oneOfFrom_cons hfalse Covers.oneOfFrom_nil)
  refine (Covers.oneOf (covers_string call G) (Covers.oneOfFrom_cons (covers_number call G)
    (Covers.oneOfFrom_cons (covers_object call G h) (Covers.oneOfFrom_cons
      (covers_array call G h) (Covers.oneOfFrom_cons hnull (Covers.oneOfFrom_cons hbool
        Covers.oneOfFrom_nil)))))).mono ?_
  rintro t v (⟨content, hc, rfl, rfl⟩ | ⟨d, hd, rfl⟩ | ⟨_, hv⟩ | ⟨_, hv⟩ |
    ⟨_, ⟨rfl, _⟩, rfl⟩ | (⟨_, ⟨rfl, _⟩, rfl⟩ | ⟨_, ⟨rfl, _⟩, rfl⟩ | hno) | hno)
  · exact ⟨1, by omega, .string hc⟩
  · exact ⟨1, by omega, .number hd⟩
  · exact hv
  · exact hv
  · exact ⟨1, by omega, .null⟩
  · exact ⟨1, by omega, .true⟩
  · exact ⟨1, by omega, .false⟩
  · exact hno.elim
  · exact hno.elim

/-! Before a text that begins with the first character of an alternative, the alternatives
that come earlier refuse. -/

theorem reads_unguarded_number {t r : List Char} {e : Decimal} (ht : DerivesNumber t e)
    (hr : NumberEnds t r) :
    ((unguarded inner).eval call).Reads G (t ++ r) r (.number e) := by
  have hread := reads_number call G ht hr
  obtain ⟨c, t', rfl, hc⟩ := ht.exists_cons
  have hne : c ≠ '"' := by
    rintro rfl
    exact absurd hc (by decide)
  exact reads_oneOf_append [] _ (refuses_string call G hne _) (List.forall_mem_nil _) hread

variable {l r : List Char} {v : Value}

theorem reads_unguarded_object
    (hv : ((Grammar.object inner).eval call).Reads G ('\x7b' :: l) r v) :
    ((unguarded inner).eval call).Reads G ('\x7b' :: l) r v := by
  refine reads_oneOf_append [Grammar.number.eval call] _
    (refuses_string call G (by decide) l) ?_ hv
  exact List.forall_mem_singleton.mpr (refuses_number call G (by decide) l)

theorem reads_unguarded_array (h : ReadsValues (inner.eval call) G d)
    (hv : ((Grammar.array inner).eval call).Reads G ('[' :: l) r v) :
    ((unguarded inner).eval call).Reads G ('[' :: l) r v := by
  refine reads_oneOf_append [Grammar.number.eval call, (Grammar.object inner).eval call] _
    (refuses_string call G (by decide) l) ?_ hv
  exact List.forall_mem_cons.mpr ⟨refuses_number call G (by decide) l,
    List.forall_mem_singleton.mpr (refuses_object call G h (by decide) l)⟩

theorem reads_unguarded_null (h : ReadsValues (inner.eval call) G d)
    (hv : (Grammar.null.eval call : Parser (List Char) _).Reads G ('n' :: l) r v) :
    ((unguarded inner).eval call).Reads G ('n' :: l) r v := by
  refine reads_oneOf_append [Grammar.number.eval call, (Grammar.object inner).eval call,
    (Grammar.array inner).eval call] _ (refuses_string call G (by decide) l) ?_ hv
  exact List.forall_mem_cons.mpr ⟨refuses_number call G (by decide) l,
    List.forall_mem_cons.mpr ⟨refuses_object call G h (by decide) l,
      List.forall_mem_singleton.mpr (refuses_array call G h (by decide) l)⟩⟩

theorem reads_unguarded_bool (h : ReadsValues (inner.eval call) G d)
    (hch : ch = 't' ∨ ch = 'f')
    (hv : (Grammar.bool.eval call : Parser (List Char) _).Reads G (ch :: l) r v) :
    ((unguarded inner).eval call).Reads G (ch :: l) r v := by
  have hne : ch ≠ '"' ∧ ¬ (ch = '-' ∨ IsDigit ch) ∧ ch ≠ '\x7b' ∧ ch ≠ '[' ∧ ch ≠ 'n' := by
    rcases hch with rfl | rfl
    · decide
    · decide
  obtain ⟨h₁, h₂, h₃, h₄, h₅⟩ := hne
  refine reads_oneOf_append [Grammar.number.eval call, (Grammar.object inner).eval call,
    (Grammar.array inner).eval call, Grammar.null.eval call] _
    (refuses_string call G h₁ l) ?_ hv
  have hnull : (Grammar.null.eval call : Parser (List Char) _).Refuses G (ch :: l) :=
    (refuses_literal call G rfl h₅ l).map _
  exact List.forall_mem_cons.mpr ⟨refuses_number call G h₂ l, List.forall_mem_cons.mpr
    ⟨refuses_object call G h h₃ l, List.forall_mem_cons.mpr ⟨refuses_array call G h h₄ l,
      List.forall_mem_singleton.mpr hnull⟩⟩⟩

theorem reads_unguarded (h : ReadsValues (inner.eval call) G d) {t : List Char} {n : Nat}
    (ht : Derives t v n) (hn : n ≤ d + 1) (hr : Ends t r) :
    ((unguarded inner).eval call).Reads G (t ++ r) r v := by
  cases ht with
  | @string content hc =>
    rw [List.append_assoc]
    exact (reads_string call G hc r).oneOf
  | @number t e he => exact reads_unguarded_number call G he (hr e he)
  | null =>
    refine reads_unguarded_null call G h ?_
    exact (reads_literal call G "null" r).map fun _ => Value.null
  | true =>
    refine reads_unguarded_bool call G h (Or.inl rfl) (Reads.oneOf ?_)
    exact (reads_literal call G "true" r).map fun _ => Value.bool Bool.true
  | false =>
    refine reads_unguarded_bool call G h (Or.inr rfl) (reads_oneOf_append [] []
      ((refuses_literal call G (show "true".toList = _ from rfl) (by decide) _).map _)
      (List.forall_mem_nil _) ?_)
    exact (reads_literal call G "false" r).map fun _ => Value.bool Bool.false
  | emptyArray hw =>
    rw [List.append_assoc]
    exact reads_unguarded_array call G h (reads_emptyArray call G h hw r)
  | array hw ht hw' =>
    rw [List.append_assoc]
    exact reads_unguarded_array call G h
      (reads_array call G h hw ht (Nat.le_of_succ_le_succ hn) hw' r)
  | emptyObject hw =>
    rw [List.append_assoc]
    exact reads_unguarded_object call G (reads_emptyObject call G h hw r)
  | object hw ht hw' =>
    rw [List.append_assoc]
    exact reads_unguarded_object call G
      (reads_object call G h hw ht (Nat.le_of_succ_le_succ hn) hw' r)

end Alternatives

/-! ## The rule for values -/

/-- How many more entries a guard admits. -/
def room (g : DepthGuard) : Nat := (g.maxDepth - g.currentDepth).toNat

/-- A guard with room for one entry more admits it, and has that much less room inside. -/
theorem room_enter {G : Array DepthGuard} {g d : Nat} (hroom : room (guardOf G g) = d + 1) :
    ∃ inside, (guardOf G g).enter = .ok inside ∧
      room (guardOf (G.setIfInBounds g inside) g) = d := by
  have hlt : (guardOf G g).currentDepth < (guardOf G g).maxDepth := by
    unfold room at hroom
    omega
  have he := DepthGuard.enter_of_lt hlt
  refine ⟨_, he, ?_⟩
  have hg := RunState.lt_size_of_enter (s := { guards := G }) he
  have hin := RunState.guardAt_setGuard_self hg
    { guardOf G g with currentDepth := (guardOf G g).currentDepth + 1 }
  change guardOf (G.setIfInBounds g _) g = _ at hin
  rw [hin]
  unfold room at hroom ⊢
  simp only
  omega

/-- **The rule for values reads exactly the values of the levels that its guard still
admits**, if it is granted as many calls as there are levels. -/
theorem readsValues_value (g : Nat) {d n : Nat} (hn : d ≤ n) {G : Array DepthGuard}
    (hroom : room (guardOf G g) = d) :
    ReadsValues ((Grammar.value (.ref ()) g).eval ((rules g).call n)) G d := by
  induction d generalizing n G with
  | zero =>
    have hle : (guardOf G g).maxDepth ≤ (guardOf G g).currentDepth := by
      unfold room at hroom
      omega
    have he := DepthGuard.enter_of_le hle
    refine ⟨Covers.guarded_of_refused he, fun ht hn' _ => ?_⟩
    have := ht.one_le
    omega
  | succ d ih =>
    obtain ⟨inside, he, hin⟩ := room_enter hroom
    obtain ⟨n, rfl⟩ := Nat.exists_eq_succ_of_ne_zero (show n ≠ 0 by omega)
    -- the guard inside admits one level less
    have hinner : ReadsValues
        ((Expr.ref () : Expr Primitive (fun _ : Unit => Value) Value).eval
          ((rules g).call (n + 1))) (G.setIfInBounds g inside) d :=
      ih (Nat.le_of_succ_le_succ hn) hin
    exact ⟨Covers.guarded he (covers_unguarded _ _ hinner),
      fun ht hn' hr => Yields.guarded he (reads_unguarded _ _ hinner ht hn' hr)⟩

end Json
end Descent
