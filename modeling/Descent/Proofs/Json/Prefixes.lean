import Descent.Proofs.Json.Values
import Descent.Proofs.Longest

/-!
# Values in front of other text

The parser of values takes the longest value of an allowed level that stands in front of the
input, whatever comes after it.  All values but numbers show where they end.  A number may
begin with a shorter one: one with fewer digits, or the one without its fraction.  The longest
of them is the one that has come to its end (`DerivesNumber.ends`): with one more digit after
it, or a point with a digit after it, there would be a longer one.  A point without a digit
after it belongs to no number, and is left.
-/

namespace Descent
namespace Json

open Descent.Parser

/-! ## Longer numbers -/

theorem IsDigits.snoc {w : List Char} {ch : Char} (hw : IsDigits w) (hch : IsDigit ch) :
    IsDigits (w ++ [ch]) := by
  refine ⟨by simp, fun c hc => ?_⟩
  rcases List.mem_append.mp hc with hc | hc
  · exact hw.2 c hc
  · rw [List.mem_singleton.mp hc]
    exact hch

theorem DerivesNumber.snoc {t : List Char} {d : Decimal} {ch : Char} (h : DerivesNumber t d)
    (hch : IsDigit ch) : ∃ e, DerivesNumber (t ++ [ch]) e := by
  cases h with
  | @integer negative whole hw =>
    have h := @DerivesNumber.integer negative _ (hw.snoc hch)
    rw [← List.append_assoc] at h
    exact ⟨_, h⟩
  | @fractional negative whole fraction hw hf =>
    have h := @DerivesNumber.fractional negative _ _ hw (hf.snoc hch)
    rw [← List.cons_append, ← List.append_assoc] at h
    exact ⟨_, h⟩

/-- A number without a point goes on with a point and a digit. -/
theorem DerivesNumber.point {t : List Char} {d : Decimal} {ch : Char} (h : DerivesNumber t d)
    (ht : '.' ∉ t) (hch : IsDigit ch) : ∃ e, DerivesNumber (t ++ ['.', ch]) e := by
  cases h with
  | integer hw =>
    have hf : IsDigits [ch] := by
      refine ⟨by simp, fun c hc => ?_⟩
      rw [List.mem_singleton.mp hc]
      exact hch
    exact ⟨_, .fractional hw hf⟩
  | fractional hw hf => exact absurd (List.mem_append_right _ List.mem_cons_self) ht

/-- A number with no longer number in front of the same text has come to its end. -/
theorem DerivesNumber.ends {t r : List Char} {d : Decimal} (h : DerivesNumber t d)
    (hmax : ∀ u e, DerivesNumber u e → u <+: t ++ r → u.length ≤ t.length) :
    NumberEnds t r := by
  have longer : ∀ (m r' : List Char) (e : Decimal), r = m ++ r' → DerivesNumber (t ++ m) e →
      m = [] := by
    rintro m r' e rfl he
    have := hmax _ e he ⟨r', List.append_assoc t m r'⟩
    rw [List.length_append] at this
    exact List.length_eq_zero_iff.mp (by omega)
  refine ⟨fun ch hch hd => ?_, fun ht ch r' hr hd => ?_⟩
  · cases r with
    | nil => cases hch
    | cons c r =>
      obtain rfl : c = ch := by simpa using hch
      obtain ⟨e, he⟩ := h.snoc hd
      exact List.cons_ne_nil _ _ (longer [c] r e rfl he)
  · obtain ⟨e, he⟩ := h.point ht hd
    exact List.cons_ne_nil _ _ (longer ['.', ch] r' e hr he)

/-! ## The longest value -/

/-- The texts of numbers, with the values that they denote. -/
def NumberText (t : List Char) (v : Value) : Prop := ∃ d, DerivesNumber t d ∧ v = .number d

/-- The texts of values of level `d` at most, with the values that they denote. -/
def ValueText (d : Nat) (t : List Char) (v : Value) : Prop := ∃ n ≤ d, Derives t v n

/-- A level that is bounded by an integer, a negative one included, is bounded by the natural
number next to it. -/
theorem valueText_toNat (d : Int) :
    (fun t v => ∃ n : Nat, (n : Int) ≤ d ∧ Derives t v n) = ValueText d.toNat := by
  funext t v
  refine propext ⟨?_, ?_⟩
  · rintro ⟨n, hn, hv⟩
    exact ⟨n, by omega, hv⟩
  · rintro ⟨n, hn, hv⟩
    have := hv.one_le
    exact ⟨n, by omega, hv⟩

theorem longest_number_ends {t r : List Char} {d : Decimal} (h : DerivesNumber t d)
    (ht : Longest NumberText (t ++ r) t) : NumberEnds t r :=
  h.ends fun u e hu hl => ht.length_le u (.number e) ⟨e, hu, rfl⟩ hl

/-- What follows the longest value makes no longer number of it. -/
theorem longest_value_ends {d : Nat} {t r : List Char}
    (ht : Longest (ValueText d) (t ++ r) t) : Ends t r := by
  obtain ⟨v, n, hn, hv⟩ := ht.mem
  have hd : 1 ≤ d := Nat.le_trans hv.one_le hn
  exact fun e he => he.ends fun u e' hu hl =>
    ht.length_le u (.number e') ⟨1, hd, .number hu⟩ hl

theorem ReadsValues.reads_of_longest {p : Parser (List Char) Value} {G : Array DepthGuard}
    {d : Nat} (h : ReadsValues p G d) (t : List Char) (v : Value) (r : List Char)
    (hv : ValueText d t v) (ht : Longest (ValueText d) (t ++ r) t) : p.Reads G (t ++ r) r v := by
  obtain ⟨n, hn, hv⟩ := hv
  exact h.reads hv hn (longest_value_ends ht)

theorem reads_number_of_longest {ρ : Type} {τ : ρ → Type}
    (call : ∀ r, Parser (List Char) (τ r)) (G : Array DepthGuard) (t : List Char) (v : Value)
    (r : List Char) (hv : NumberText t v) (ht : Longest NumberText (t ++ r) t) :
    (Grammar.number.eval call : Parser (List Char) _).Reads G (t ++ r) r v := by
  obtain ⟨d, hd, rfl⟩ := hv
  exact reads_number call G hd (longest_number_ends hd ht)

/-! ## The guard of a rule for values -/

/-- The guard that is made for a nesting limit admits the levels of the limit as clamped.  It
is clamped once more, at one frame to a level, and that does not lower it again. -/
theorem room_addGuard (s : RunState) (recursionLimit maxDepth : Int) :
    room (guardOf (s.addGuard recursionLimit maxDepth Limits.framesPerLevel).2.guards
      (s.addGuard recursionLimit maxDepth Limits.framesPerLevel).1)
      = (Depth.clamp recursionLimit maxDepth Limits.reserveFrames
          Limits.framesPerLevel).toNat := by
  have hguard : ∀ g : DepthGuard, guardOf (s.guards.push g) s.guards.size = g := fun g => by
    simp [guardOf, RunState.guardAt]
  unfold RunState.addGuard
  simp only [hguard]
  unfold room DepthGuard.ofLimit
  have hten : max (10 : Int) 1 = 10 := by decide
  have hone : max (1 : Int) 1 = 1 := by decide
  simp only [Depth.clamp_eq_min, Depth.ceiling, Limits.reserveFrames, Limits.framesPerLevel,
    hten, hone]
  omega

/-! ## Values and numbers at a cursor -/

/-- **The longest value is taken.**  On a cursor inside its text or at its end, the parser of
values that is made for a nesting limit takes the longest value of a level that the limit, as
clamped, allows; and it refuses only where no such value stands.  The parser of numbers takes
the longest number, and leaves a point that no digit follows. -/
theorem value_takesLongest (recursionLimit maxDepth : Int) (s : RunState) (calls : Nat)
    (hcalls : (Depth.clamp recursionLimit maxDepth Limits.reserveFrames
      Limits.framesPerLevel).toNat ≤ calls)
    (c : Cursor) (h₀ : 0 ≤ c.pos) (h₁ : c.pos ≤ c.source.size) :
    let d := Depth.clamp recursionLimit maxDepth Limits.reserveFrames Limits.framesPerLevel
    let guard := s.addGuard recursionLimit maxDepth Limits.framesPerLevel
    let value := (rules guard.1).parse (Grammar.value (.ref ()) guard.1) calls
    let number : Parser Cursor Value := (rules guard.1).parse Grammar.number calls
    value.TakesLongest (fun t v => ∃ n : Nat, (n : Int) ≤ d ∧ Derives t v n) c guard.2 ∧
      number.TakesLongest NumberText c guard.2 ∧
      ∀ t e r, DerivesNumber t e → '.' ∉ t → (∀ ch ∈ r.head?, ¬ IsDigit ch) →
        c.remainder = t ++ '.' :: r → ∃ s', number c guard.2
          = .ok (.success { c with pos := c.pos + t.length } (.number e)) s' := by
  intro d guard value number
  have hvalue := readsValues_value guard.1 hcalls (room_addGuard s recursionLimit maxDepth)
  refine ⟨?_, ?_, fun t e r he hpoint hr hl => ?_⟩
  · rw [valueText_toNat]
    exact Rules.takesLongest h₀ h₁ hvalue.covers hvalue.reads_of_longest
  · exact Rules.takesLongest h₀ h₁ (covers_number _ _) (reads_number_of_longest _ _)
  · have hends : NumberEnds t ('.' :: r) := by
      refine ⟨fun ch hch => ?_, fun _ ch r' heq => ?_⟩
      · obtain rfl : '.' = ch := by simpa using hch
        decide
      · obtain rfl := (List.cons.inj heq).2
        exact hr ch rfl
    have hread := reads_number ((rules guard.1).call calls) guard.2.guards he hends
    rw [← hl] at hread
    obtain ⟨s', hs', -⟩ := Rules.parse_of_reads c.remainder_suffix hread
    rw [Cursor.leaving_remainder h₀ h₁, Cursor.leaving_of_remainder_eq h₀ h₁ hl] at hs'
    exact ⟨s', hs'⟩

/-- On `[7] 1.` the array is the longest value, and on `1.` behind it the digit is. -/
theorem arrayAndPoint_takesLongest :
    (((rules 0).parse (Grammar.value (.ref ()) 0) 2).TakesLongest
        (fun t v => ∃ n : Nat, (n : Int) ≤ 2 ∧ Derives t v n)
        { source := #['[', '7', ']', ' ', '1', '.'] } { guards := #[{ maxDepth := 2 }] }) ∧
      ∃ s', ((rules 0).parse Grammar.number 2 : Parser Cursor Value)
          { source := #['[', '7', ']', ' ', '1', '.'], pos := 4 }
          { guards := #[{ maxDepth := 2 }] }
        = .ok (.success { source := #['[', '7', ']', ' ', '1', '.'], pos := 5 }
            (.number (.ofDigits false ['1'] []))) s' := by
  have array := value_takesLongest 1000 2 {} 2 (by decide)
    { source := #['[', '7', ']', ' ', '1', '.'] } (by decide) (by decide)
  have point := value_takesLongest 1000 2 {} 2 (by decide)
    { source := #['[', '7', ']', ' ', '1', '.'], pos := 4 } (by decide) (by decide)
  have hone : DerivesNumber ['1'] (.ofDigits false ['1'] []) :=
    @DerivesNumber.integer Bool.false ['1'] ⟨List.cons_ne_nil _ _,
      List.forall_mem_singleton.mpr (by decide)⟩
  exact ⟨array.1, point.2.2 ['1'] _ [] hone (by decide) (by simp) rfl⟩

end Json
end Descent
