import Descent.Proofs.Json.Documents
import Descent.Proofs.Json.Equality

/-!
# Writing and reading back

A value that is written is read back, if its text is not too large and its level within the
nesting limit.  What is read is the value with its positive exponents multiplied out: an
equal value, the same one if there is no such exponent.

Every value that was read can be written, and has no positive exponent, so after the first
reading writing and reading changes nothing.
-/

namespace Descent
namespace Json
namespace DocumentParser

variable (p : DocumentParser)

/-- The text of a value is accepted, if the level of the value is. -/
theorem accepts_toText {P : Decimal → Prop} {v : Value} (h : v.Writable P)
    (hlevel : (v.level : Int) ≤ p.maxNestingDepth) :
    p.Accepts v.toText (v.mapNumbers Decimal.expand) := by
  refine ⟨v.level, hlevel, [], v.write, [], isBlank_nil, h.derives_write, isBlank_nil, ?_⟩
  rw [Value.toText, List.nil_append, List.append_nil]

/-- What is accepted can be written, without a positive exponent and within the limit. -/
theorem Accepts.writable {p : DocumentParser} {source : Text} {v : Value}
    (h : p.Accepts source v) :
    v.Writable (fun d => d.exponent ≤ 0) ∧ (v.level : Int) ≤ p.maxNestingDepth := by
  obtain ⟨n, hn, _, _, _, _, hv, _⟩ := h
  obtain ⟨hw, hl⟩ := hv.writable
  exact ⟨hw, by omega⟩

/-- **Round trip.**  A value without a bare value and without a quote in a string or a key,
of a level within the limit and with a text that is not too large, is read back from its
text with its positive exponents multiplied out.  So what is read is equal to it, its plain
form is equal to the plain form of it, and it is the same value if no exponent is positive.
In turn every value that is read is such a value without a positive exponent, and reading
its text gives exactly that value again. -/
theorem parse_toText (maxSourceSize maxNestingDepth : Option Int) (recursionLimit : Int)
    (log : Array Event) :
    let p := ofLimits maxSourceSize maxNestingDepth recursionLimit
    let s : RunState := { p.start recursionLimit with log := log }
    let fits := fun v : Value => ¬ (0 < p.maxSourceSize ∧ p.maxSourceSize < v.toText.size)
    (∀ v : Value, v.Writable (fun _ => True) → (v.level : Int) ≤ p.maxNestingDepth → fits v →
      ∃ w s', p.parse v.toText s = .ok (.ok w) s' ∧ w = v.mapNumbers Decimal.expand ∧
        w.equal v = true ∧ (v.Writable (fun d => d.exponent ≤ 0) → w = v) ∧
        ∃ a b, w.toPlain? = some a ∧ v.toPlain? = some b ∧ a.equal b = true) ∧
    ∀ source v s', p.parse source s = .ok (.ok v) s' →
      v.Writable (fun d => d.exponent ≤ 0) ∧ (v.level : Int) ≤ p.maxNestingDepth ∧
        (fits v → ∃ s'', p.parse v.toText s' = .ok (.ok v) s'') := by
  intro p s fits
  have hroom : room (Parser.guardOf s.guards 0) = p.maxNestingDepth.toNat :=
    room_start maxSourceSize maxNestingDepth recursionLimit
  have hsize : ∀ {v}, fits v → p.isTooLarge v.toText = false := by
    intro v hv
    rw [← Bool.not_eq_true, p.isTooLarge_iff]
    exact hv
  have hself : ∀ {v : Value}, v.Writable (fun d => d.exponent ≤ 0) →
      v.mapNumbers Decimal.expand = v :=
    fun h => h.mapNumbers_eq_self Decimal.expand fun d hd => Decimal.expand_of_le hd
  refine ⟨fun v hv hlevel hfits => ?_, fun source v s' hread => ?_⟩
  · obtain ⟨s', hs'⟩ := p.parse_of_accepts hroom (hsize hfits) (p.accepts_toText hv hlevel)
    exact ⟨_, s', hs', rfl, hv.equal_mapNumbers Decimal.sameValue_expand, hself,
      hv.plainAgrees Decimal.sameValue_expand⟩
  · obtain ⟨hv, hg⟩ := p.accepts_of_parse hroom hread
    obtain ⟨hwritable, hlevel⟩ := hv.writable
    refine ⟨hwritable, hlevel, fun hfits => ?_⟩
    have haccepts := p.accepts_toText hwritable hlevel
    rw [hself hwritable] at haccepts
    exact p.parse_of_accepts (by rwa [hg]) (hsize hfits) haccepts

/-- An object with a fraction, a negative zero and a positive exponent. -/
def sampleValue : Value :=
  .object [("a b", .array [.number { coefficient := 5, exponent := -3 },
      .number { negative := true, coefficient := 0, exponent := -1 },
      .number { coefficient := 12, exponent := 2 }]),
    ("", .string "[1, \x7b2")]

/-- It is read back with 1200 in the place of `12E+2`, and that is read back as it is. -/
theorem sampleValue_parse_toText :
    sampleValue.toText
      = Text.ofString "\x7b\"a b\": [0.005, -0.0, 1200], \"\": \"[1, \x7b2\"\x7d" ∧
    ∃ w s' s'', (ofLimits none none).parse sampleValue.toText ((ofLimits none none).start)
        = .ok (.ok w) s' ∧ w.equal sampleValue = true ∧
      (ofLimits none none).parse w.toText s' = .ok (.ok w) s'' := by
  have hwritable : sampleValue.Writable fun _ => True := by
    have hnumbers : ∀ v ∈ [Value.number { coefficient := 5, exponent := -3 },
        .number { negative := true, coefficient := 0, exponent := -1 },
        .number { coefficient := 12, exponent := 2 }], v.Writable fun _ => True := by
      simp [Value.Writable.number]
    exact .object (by decide) (by decide) (List.forall_mem_cons.mpr
      ⟨.array hnumbers, List.forall_mem_singleton.mpr (.string (by decide))⟩)
  have h := parse_toText none none Limits.recursionLimit #[]
  obtain ⟨w, s', hread, hw, hequal, _⟩ := h.1 sampleValue hwritable (by decide) (by decide)
  obtain ⟨_, _, hagain⟩ := h.2 _ _ _ hread
  obtain ⟨s'', hs''⟩ := hagain (by rw [hw]; decide)
  exact ⟨rfl, w, s', s'', hread, hequal, hs''⟩

end DocumentParser
end Json
end Descent
