import Descent.Json.Document
import Descent.Proofs.Json.Values
import Descent.Proofs.Reporting

/-!
# Documents

A document parser answers as the grammar says.  It never halts: a text that is too large is
refused for its size, a text that the grammar derives with a level that the nesting limit
allows is read as the value that it denotes, and every other text is refused with a report.
-/

namespace Descent
namespace Json

open Descent.Parser

/-! ## A value and the end of the text -/

section Document

variable {ρ : Type} {τ : ρ → Type} (call : ∀ r, Parser (List Char) (τ r))
variable (G : Array DepthGuard) {p : Expr Primitive τ Value} {d : Nat} {l r : List Char}
  {v : Value}

/-- A value that is read with nothing but blanks after it is a document. -/
theorem reads_document_of_reads (h : (p.eval call).Reads G (skip l) r v) (hr : skip r = []) :
    ((Grammar.document p).eval call).Reads G l [] v := by
  obtain ⟨_, hb⟩ := reads_blank call G l
  obtain ⟨_, hb'⟩ := reads_blank call G r
  have heof := yields_terminal call G .eof (skip r)
  rw [hr] at hb' heof
  exact (hb.preceded h).terminated (hb'.both heof)

/-- After a value that is read, a character that is not blank is the failure. -/
theorem fails_document_of_reads (h : (p.eval call).Reads G (skip l) r v) (hr : skip r ≠ []) :
    ((Grammar.document p).eval call).Fails G l (skip r) 0 := by
  obtain ⟨_, hb⟩ := reads_blank call G l
  obtain ⟨_, hb'⟩ := reads_blank call G r
  have heof := yields_terminal call G .eof (skip r)
  rw [Primitive.readList, if_neg (by simpa using hr)] at heof
  exact Fails.terminated_next (hb.preceded h) (Fails.both_next hb' heof)

/-- Where no value is read after the blanks, its failure is that of the document. -/
theorem fails_document {j : List Char} {i : Int} (h : (p.eval call).Fails G (skip l) j i) :
    ((Grammar.document p).eval call).Fails G l j i := by
  obtain ⟨_, hb⟩ := reads_blank call G l
  exact (Fails.preceded_next hb h).terminated

theorem reads_document (h : ReadsValues (p.eval call) G d) {n : Nat}
    (hl : DerivesDocument l v n) (hn : n ≤ d) :
    ((Grammar.document p).eval call).Reads G l [] v := by
  obtain ⟨w, u, w', hw, hu, hw', rfl⟩ := hl
  have hends : Ends u w' := by
    have := ends_append_of_isBlank u (r := []) hw' (by simp)
    rwa [List.append_nil] at this
  refine reads_document_of_reads call G ?_ (skip_eq_nil hw')
  rw [List.append_assoc, skip_append_of_isBlank hw, hu.skip_append]
  exact h.reads hu hn hends

/-- A text that is no document is refused. -/
theorem reads_document_or_refuses (h : ReadsValues (p.eval call) G d) (l : List Char) :
    (∃ v n, n ≤ d ∧ DerivesDocument l v n ∧
      ((Grammar.document p).eval call).Reads G l [] v) ∨
    ((Grammar.document p).eval call).Refuses G l := by
  rcases h.covers (skip l) with ⟨u, v, r, hu, ⟨n, hn, hv⟩, hread⟩ | ⟨j, i, hno⟩
  · by_cases hend : skip r = []
    · obtain ⟨w, hw, hl⟩ := exists_isBlank_append_skip l
      obtain ⟨w', hw', hr⟩ := exists_isBlank_append_skip r
      refine Or.inl ⟨v, n, hn, ⟨w, u, w', hw, hv, hw', ?_⟩,
        reads_document_of_reads call G hread hend⟩
      rw [hend, List.append_nil] at hr
      rw [hl, hu, ← hr, List.append_assoc]
    · exact Or.inr ⟨_, _, fails_document_of_reads call G hread hend⟩
  · exact Or.inr ⟨_, _, fails_document call G hno⟩

/-- The texts that are refused are those that are no documents. -/
theorem refuses_document_iff (h : ReadsValues (p.eval call) G d) :
    ((Grammar.document p).eval call).Refuses G l ↔ ∀ v n, n ≤ d → ¬ DerivesDocument l v n := by
  constructor
  · rintro ⟨j, i, hno⟩ v n hn hl
    cases (reads_document call G h hl hn).unique hno
  · intro hno
    rcases reads_document_or_refuses call G h l with ⟨v, n, hn, hl, _⟩ | hrefuses
    · exact absurd hl (hno v n hn)
    · exact hrefuses

end Document

/-! ## The guard of the nesting limit -/

namespace DocumentParser

/-- The guard admits as many levels as the nesting limit says.  It is made from the limit by
clamping it twice more, at ten frames and at one frame to a level; a limit that is not
negative is left alone by both, and a negative one stays negative. -/
theorem room_start (maxSourceSize maxNestingDepth : Option Int) (recursionLimit : Int) :
    room (guardOf ((ofLimits maxSourceSize maxNestingDepth recursionLimit).start
      recursionLimit).guards 0)
      = (ofLimits maxSourceSize maxNestingDepth recursionLimit).maxNestingDepth.toNat := by
  have hguard : ∀ g : DepthGuard, guardOf #[g] 0 = g := fun g => rfl
  unfold start RunState.addGuard ofLimits
  simp only [List.push_toArray, List.nil_append, hguard]
  unfold room DepthGuard.ofLimit
  have hten : max (10 : Int) 1 = 10 := by decide
  have hone : max (1 : Int) 1 = 1 := by decide
  simp only [Depth.clamp_eq_min, Depth.ceiling, Limits.reserveFrames, Limits.framesPerLevel,
    hten, hone]
  omega

variable (p : DocumentParser) {source : Text} {s : RunState}

/-- The text is a document of a level that the nesting limit allows. -/
def Accepts (source : Text) (v : Value) : Prop :=
  ∃ n : Nat, (n : Int) ≤ p.maxNestingDepth ∧ DerivesDocument source.toList v n

/-- Under a guard that admits the levels of the limit, a document is read as the value that
it denotes, and everything else is refused with a report. -/
theorem readDocument_ok_or_error
    (hroom : room (guardOf s.guards 0) = p.maxNestingDepth.toNat) (source : Text) :
    (∃ v s', p.Accepts source v ∧ p.readDocument source s = .ok (.ok v) s' ∧
      s'.guards = s.guards) ∨
    ∃ e s', p.readDocument source s = .ok (.error e) s' ∧ s'.guards = s.guards := by
  have hvalue := readsValues_value 0 (Nat.le_succ p.maxNestingDepth.toNat) hroom
  rcases reads_document_or_refuses _ _ hvalue source.toList with ⟨v, n, hn, hl, hread⟩ | hno
  · obtain ⟨s', hs', hg⟩ := Rules.parse_of_reads (List.suffix_refl source.toList) hread
    rw [Cursor.leaving_toList] at hs'
    obtain ⟨_, _, _, _, hv, _⟩ := id hl
    have := hv.one_le
    exact Or.inl ⟨v, s', ⟨n, by omega, hl⟩, Text.parse_of_success hs', hg⟩
  · obtain ⟨j, location, s', hs', hg, hsource, h₀, h₁⟩ :=
      Rules.parse_of_refuses (List.suffix_refl source.toList) hno
    rw [Cursor.leaving_toList] at hs'
    rw [← hsource] at h₁
    obtain ⟨_, _, _, hp⟩ := Text.parse_of_failure hs' h₀ h₁
    exact Or.inr ⟨_, _, hp, hg⟩

theorem readDocument_of_accepts
    (hroom : room (guardOf s.guards 0) = p.maxNestingDepth.toNat) {v : Value}
    (h : p.Accepts source v) : ∃ s', p.readDocument source s = .ok (.ok v) s' := by
  obtain ⟨n, hn, hl⟩ := h
  have hvalue := readsValues_value 0 (Nat.le_succ p.maxNestingDepth.toNat) hroom
  have hread := reads_document _ _ hvalue hl (show n ≤ _ by omega)
  obtain ⟨s', hs', _⟩ := Rules.parse_of_reads (List.suffix_refl source.toList) hread
  rw [Cursor.leaving_toList] at hs'
  exact ⟨s', Text.parse_of_success hs'⟩

/-! ## The answer of a document parser -/

theorem isTooLarge_iff (source : Text) :
    p.isTooLarge source = true ↔ 0 < p.maxSourceSize ∧ p.maxSourceSize < source.size := by
  simp [isTooLarge]

theorem parse_of_isTooLarge (h : p.isTooLarge source = true) :
    p.parse source s = .ok (.error (.sourceTooLarge source.size p.maxSourceSize)) s := by
  unfold parse
  rw [if_pos h]
  rfl

theorem parse_of_readDocument_ok (h : p.isTooLarge source = false) {v : Value}
    {s' : RunState} (hread : p.readDocument source s = .ok (.ok v) s') :
    p.parse source s = .ok (.ok v) (s'.record (.documentParsed source.size)) := by
  unfold parse
  rw [if_neg (by rw [h]; exact Bool.false_ne_true)]
  show EStateM.bind (p.readDocument source) _ s = _
  unfold EStateM.bind
  rw [hread]
  rfl

theorem parse_of_readDocument_error (h : p.isTooLarge source = false)
    {e : ParseFailed Cursor} {s' : RunState}
    (hread : p.readDocument source s = .ok (.error e) s') :
    p.parse source s = .ok (.error (.parseFailed e)) s' := by
  unfold parse
  rw [if_neg (by rw [h]; exact Bool.false_ne_true)]
  show EStateM.bind (p.readDocument source) _ s = _
  unfold EStateM.bind
  rw [hread]
  rfl

theorem parse_of_accepts (hroom : room (guardOf s.guards 0) = p.maxNestingDepth.toNat)
    (hsize : p.isTooLarge source = false) {v : Value} (h : p.Accepts source v) :
    ∃ s', p.parse source s = .ok (.ok v) s' := by
  obtain ⟨s', hread⟩ := p.readDocument_of_accepts hroom h
  exact ⟨_, p.parse_of_readDocument_ok hsize hread⟩

/-- A text that is read is a document. -/
theorem accepts_of_parse (hroom : room (guardOf s.guards 0) = p.maxNestingDepth.toNat)
    {v : Value} {s' : RunState} (h : p.parse source s = .ok (.ok v) s') :
    p.Accepts source v ∧ s'.guards = s.guards := by
  have hsize : p.isTooLarge source = false := by
    rw [← Bool.not_eq_true]
    intro hlarge
    rw [p.parse_of_isTooLarge hlarge] at h
    exact absurd (EStateM.Result.ok.inj h).1 (by simp)
  rcases p.readDocument_ok_or_error hroom source with ⟨w, t, hw, hread, hg⟩ | ⟨e, t, hread, _⟩
  · rw [p.parse_of_readDocument_ok hsize hread] at h
    obtain ⟨hv, rfl⟩ := EStateM.Result.ok.inj h
    obtain rfl := Except.ok.inj hv
    exact ⟨hw, hg⟩
  · rw [p.parse_of_readDocument_error hsize hread] at h
    exact absurd (EStateM.Result.ok.inj h).1 (by simp)

/-- **A document parser answers as the grammar says.**  It never halts and leaves its guard
as it was, so the same holds of the next text.  Its answer is that the text is too large
exactly if there is a size limit and the text exceeds it.  Otherwise it is a value exactly
if the text is a document of an allowed level that denotes that value, and a failure in all
other cases. -/
theorem parse_answers (maxSourceSize maxNestingDepth : Option Int) (recursionLimit : Int)
    (log : Array Event) (source : Text) :
    let p := ofLimits maxSourceSize maxNestingDepth recursionLimit
    let s : RunState := { p.start recursionLimit with log := log }
    let tooLarge := 0 < p.maxSourceSize ∧ p.maxSourceSize < source.size
    ∃ r s', p.parse source s = .ok r s' ∧ s'.guards = s.guards ∧
      (r = .error (.sourceTooLarge source.size p.maxSourceSize) ↔ tooLarge) ∧
      (∀ v, r = .ok v ↔ ¬ tooLarge ∧ p.Accepts source v) ∧
      ((∃ e, r = .error (.parseFailed e)) ↔ ¬ tooLarge ∧ ∀ v, ¬ p.Accepts source v) := by
  intro p s tooLarge
  have hroom : room (guardOf s.guards 0) = p.maxNestingDepth.toNat :=
    room_start maxSourceSize maxNestingDepth recursionLimit
  by_cases hlarge : tooLarge
  · have hparse := p.parse_of_isTooLarge (s := s) ((p.isTooLarge_iff source).mpr hlarge)
    refine ⟨_, s, hparse, rfl, by simp [hlarge], fun v => ?_, ?_⟩
    · simp [hlarge]
    · simp [hlarge]
  · have hsize : p.isTooLarge source = false := by
      rw [← Bool.not_eq_true, p.isTooLarge_iff source]
      exact hlarge
    have hvalue : ∀ {r s'}, p.parse source s = .ok r s' →
        ∀ v, r = .ok v ↔ ¬ tooLarge ∧ p.Accepts source v := by
      intro r s' hparse v
      constructor
      · rintro rfl
        exact ⟨hlarge, (p.accepts_of_parse hroom hparse).1⟩
      · rintro ⟨_, hv⟩
        obtain ⟨t, ht⟩ := p.parse_of_accepts hroom hsize hv
        rw [hparse] at ht
        exact (EStateM.Result.ok.inj ht).1
    rcases p.readDocument_ok_or_error hroom source with ⟨v, s', hv, hread, hg⟩ |
      ⟨e, s', hread, hg⟩
    · have hparse := p.parse_of_readDocument_ok hsize hread
      refine ⟨_, _, hparse, hg, by simp [hlarge], hvalue hparse, ?_⟩
      constructor
      · rintro ⟨e, he⟩
        exact absurd he (by simp)
      · rintro ⟨_, hno⟩
        exact absurd hv (hno v)
    · have hparse := p.parse_of_readDocument_error hsize hread
      refine ⟨_, s', hparse, hg, by simp [hlarge], hvalue hparse, fun _ => ⟨hlarge, ?_⟩,
        fun _ => ⟨e, rfl⟩⟩
      intro v hv
      exact absurd ((hvalue hparse v).mpr ⟨hlarge, hv⟩) (by simp)

end DocumentParser

end Json
end Descent
