import Descent.Proofs.Json.Containers

/-!
# Elements and members

An element is a value with blanks around it, and a member has a key before its value.  Given
a parser that reads exactly the values up to some level (`ReadsValues`), the parsers of
elements and members read exactly those up to that level, and the parsers of arrays and
objects the containers of one level more.

A value does not begin with a blank, nor with a bracket that closes.  So what begins with
such a bracket is no item, and a container whose bracket closes at once is empty.
-/

namespace Descent
namespace Json

open Descent.Parser

/-! ## First characters -/

/-- The first characters of values. -/
def StartsValue (ch : Char) : Prop := ch ∈ ['"', '-', '\x7b', '[', 'n', 't', 'f'] ∨ IsDigit ch

instance (ch : Char) : Decidable (IsDigit ch) := inferInstanceAs (Decidable (_ ∧ _))

instance (ch : Char) : Decidable (StartsValue ch) := inferInstanceAs (Decidable (_ ∨ _))

theorem StartsValue.ne {ch c : Char} (h : StartsValue ch) (hc : ¬ StartsValue c) : c ≠ ch := by
  rintro rfl
  exact hc h

theorem StartsValue.not_blank {ch : Char} (h : StartsValue ch) :
    blanks.admits ch = false := by
  rw [← Bool.not_eq_true]
  intro hb
  rcases admits_blanks_iff.mp hb with rfl | rfl | rfl | rfl
  · exact absurd h (by decide)
  · exact absurd h (by decide)
  · exact absurd h (by decide)
  · exact absurd h (by decide)

theorem DerivesNumber.exists_cons {t : List Char} {d : Decimal} (h : DerivesNumber t d) :
    ∃ ch t', t = ch :: t' ∧ (ch = '-' ∨ IsDigit ch) := by
  have hsigned : ∀ negative (w : List Char), IsDigits w → ∀ u,
      ∃ ch t', signText negative ++ w ++ u = ch :: t' ∧ (ch = '-' ∨ IsDigit ch) := by
    intro negative w hw u
    obtain ⟨ch, w', rfl⟩ := List.exists_cons_of_ne_nil hw.1
    cases negative with
    | true => exact ⟨'-', _, rfl, Or.inl rfl⟩
    | false => exact ⟨ch, w' ++ u, rfl, Or.inr (hw.2 ch (List.mem_cons_self ..))⟩
  cases h with
  | @integer negative whole hw =>
    have := hsigned negative whole hw []
    rwa [List.append_nil] at this
  | @fractional negative whole fraction hw hf => exact hsigned negative whole hw _

theorem Derives.exists_cons {t : List Char} {v : Value} {n : Nat} (h : Derives t v n) :
    ∃ ch t', t = ch :: t' ∧ StartsValue ch := by
  cases h with
  | number h =>
    obtain ⟨ch, t', rfl, rfl | hd⟩ := h.exists_cons
    · exact ⟨'-', t', rfl, Or.inl (by decide)⟩
    · exact ⟨ch, t', rfl, Or.inr hd⟩
  | string _ => exact ⟨'"', _, rfl, Or.inl (by decide)⟩
  | null => exact ⟨'n', _, rfl, Or.inl (by decide)⟩
  | true => exact ⟨'t', _, rfl, Or.inl (by decide)⟩
  | false => exact ⟨'f', _, rfl, Or.inl (by decide)⟩
  | emptyArray _ => exact ⟨'[', _, rfl, Or.inl (by decide)⟩
  | array _ _ _ => exact ⟨'[', _, rfl, Or.inl (by decide)⟩
  | emptyObject _ => exact ⟨'\x7b', _, rfl, Or.inl (by decide)⟩
  | object _ _ _ => exact ⟨'\x7b', _, rfl, Or.inl (by decide)⟩

theorem Derives.one_le {t : List Char} {v : Value} {n : Nat} (h : Derives t v n) :
    1 ≤ n := by
  cases h <;> omega

/-- The text of a value has no blanks in front that could be skipped. -/
theorem Derives.skip_append {t : List Char} {v : Value} {n : Nat} (h : Derives t v n)
    (r : List Char) : skip (t ++ r) = t ++ r := by
  obtain ⟨ch, t', rfl, hch⟩ := h.exists_cons
  exact skip_cons hch.not_blank _

/-! ## What may follow a value -/

/-- If `t` is a number, then nothing in `r` makes it longer. -/
def Ends (t r : List Char) : Prop := ∀ d, DerivesNumber t d → NumberEnds t r

/-- Blanks end every value, and so does any character after them that is neither a digit
nor a point. -/
theorem ends_append_of_isBlank (t : List Char) {w r : List Char} (hw : IsBlank w)
    (hr : ∀ ch ∈ r.head?, ¬ IsDigit ch ∧ ch ≠ '.') : Ends t (w ++ r) := by
  have hhead : ∀ ch ∈ (w ++ r).head?, ¬ IsDigit ch ∧ ch ≠ '.' := by
    cases w with
    | nil => exact hr
    | cons b w =>
      intro ch hch
      obtain rfl : b = ch := by simpa using hch
      rcases isBlank_iff.mp hw b (List.mem_cons_self ..) with rfl | rfl | rfl | rfl
      · decide
      · decide
      · decide
      · decide
  intro d _
  refine ⟨fun ch hch => (hhead ch hch).1, fun _ ch r' hr' => ?_⟩
  rw [hr'] at hhead
  exact absurd rfl (hhead '.' rfl).2

/-! ## The parts of containers -/

/-- Elements of level `d` at most. -/
def Element (d : Nat) (t : List Char) (v : Value) : Prop :=
  ∃ w u w' n, t = w ++ u ++ w' ∧ IsBlank w ∧ Derives u v n ∧ n ≤ d ∧ IsBlank w'

/-- Members of level `d` at most. -/
def Member (d : Nat) (t : List Char) (member : String × Value) : Prop :=
  ∃ n ≤ d, DerivesMember t member n

theorem padded_element (d : Nat) : Padded (Element d) where
  before := by
    rintro b _ v hb ⟨w, u, w', n, rfl, hw, h, hn, hw'⟩
    exact ⟨b ++ w, u, w', n, by simp, isBlank_append.mpr ⟨hb, hw⟩, h, hn, hw'⟩
  after := by
    rintro _ b v ⟨w, u, w', n, rfl, hw, h, hn, hw'⟩ hb
    exact ⟨w, u, w' ++ b, n, by simp, hw, h, hn, isBlank_append.mpr ⟨hw', hb⟩⟩

theorem padded_member (d : Nat) : Padded (Member d) where
  before := by
    rintro w t member hw ⟨n, hn, h⟩
    have := h.pad hw isBlank_nil
    rw [List.append_nil] at this
    exact ⟨n, hn, this⟩
  after := by
    rintro t w member ⟨n, hn, h⟩ hw
    exact ⟨n, hn, h.pad isBlank_nil hw⟩

/-- Elements with commas between them, in the grammar and as a list of items. -/
theorem commaList_element_iff {d : Nat} {t : List Char} {vs : List Value} :
    CommaList (Element d) t vs ↔ ∃ n ≤ d, DerivesElements t vs n := by
  constructor
  · intro h
    induction h with
    | single h =>
      obtain ⟨w, u, w', n, rfl, hw, h, hn, hw'⟩ := h
      exact ⟨n, hn, .single hw h hw'⟩
    | cons h hm _ ih =>
      obtain ⟨w, u, w', n, rfl, hw, h, hn, hw'⟩ := h
      obtain ⟨m, hm', hrest⟩ := ih
      subst hm
      refine ⟨max n m, Nat.max_le.mpr ⟨hn, hm'⟩, ?_⟩
      have := DerivesElements.cons hw h hw' hrest
      simpa using this
  · rintro ⟨n, hn, h⟩
    induction vs generalizing t n with
    | nil => cases h
    | cons v vs ih =>
      cases h with
      | single hw h hw' => exact .single ⟨_, _, _, n, rfl, hw, h, hn, hw'⟩
      | @cons w u w' rest _ _ n m hw h hw' hrest =>
        obtain ⟨hn₁, hn₂⟩ := Nat.max_le.mp hn
        have := Interleaved.cons (S := fun m => m = [','])
          (⟨w, u, w', n, rfl, hw, h, hn₁, hw'⟩ : Element d (w ++ u ++ w') v) rfl
          (ih m hn₂ hrest)
        simpa using this

/-- Members with commas between them, in the grammar and as a list of items. -/
theorem commaList_member_iff {d : Nat} {t : List Char} {members : List (String × Value)} :
    CommaList (Member d) t members ↔ ∃ n ≤ d, DerivesMembers t members n := by
  constructor
  · intro h
    induction h with
    | single h =>
      obtain ⟨n, hn, h⟩ := h
      exact ⟨n, hn, .single h⟩
    | cons h hm _ ih =>
      obtain ⟨n, hn, h⟩ := h
      obtain ⟨m, hm', hrest⟩ := ih
      subst hm
      refine ⟨max n m, Nat.max_le.mpr ⟨hn, hm'⟩, ?_⟩
      have := DerivesMembers.cons h hrest
      simpa using this
  · rintro ⟨n, hn, h⟩
    induction members generalizing t n with
    | nil => cases h
    | cons v vs ih =>
      cases h with
      | single h => exact .single ⟨n, hn, h⟩
      | @cons u rest _ _ n m h hrest =>
        obtain ⟨hn₁, hn₂⟩ := Nat.max_le.mp hn
        have := Interleaved.cons (S := fun m => m = [','])
          (⟨n, hn₁, h⟩ : Member d u v) rfl (ih m hn₂ hrest)
        simpa using this

/-! ## Containers of values -/

/-- The parser reads exactly the values of level `d` at most. -/
structure ReadsValues (p : Parser (List Char) Value) (G : Array DepthGuard) (d : Nat) :
    Prop where
  covers : p.Covers G fun t v => ∃ n ≤ d, Derives t v n
  reads : ∀ {t v n r}, Derives t v n → n ≤ d → Ends t r → p.Reads G (t ++ r) r v

section Inner

variable {ρ : Type} {τ : ρ → Type} (call : ∀ r, Parser (List Char) (τ r))
variable (G : Array DepthGuard) {inner : Expr Primitive τ Value} {d : Nat}

theorem reads_element (h : ReadsValues (inner.eval call) G d) {t r l : List Char} {ch : Char}
    {v : Value} (ht : Element d t v) (hblank : blanks.admits ch = false)
    (hch : ¬ IsDigit ch ∧ ch ≠ '.') (hl : skip l = skip (t ++ ch :: r)) :
    ((Grammar.spaced inner).eval call).Reads G l (ch :: r) v := by
  obtain ⟨w, u, w', n, rfl, hw, hu, hn, hw'⟩ := ht
  rw [List.append_assoc, List.append_assoc, skip_append_of_isBlank hw, hu.skip_append] at hl
  have hends : Ends u (w' ++ ch :: r) := by
    refine ends_append_of_isBlank u hw' ?_
    intro c hc
    obtain rfl : ch = c := by simpa using hc
    exact hch
  have hread := h.reads hu hn hends
  rw [← hl] at hread
  have := reads_spaced call G hread
  rwa [skip_append_of_isBlank hw', skip_cons hblank] at this

theorem readsItems_element (h : ReadsValues (inner.eval call) G d) :
    ReadsItems ((Grammar.spaced inner).eval call) G ']' (Element d) := by
  rintro t v ch r l ht (rfl | rfl) hl
  · exact reads_element call G h ht (by decide) (by decide) hl
  · exact reads_element call G h ht (by decide) (by decide) hl

theorem covers_element (h : ReadsValues (inner.eval call) G d) :
    ((Grammar.spaced inner).eval call).Covers G (Element d) := by
  refine (covers_spaced call G h.covers).mono ?_
  rintro t v ⟨w, u, w', ht, hw, ⟨n, hn, hu⟩, hw'⟩
  exact ⟨w, u, w', n, ht, hw, hu, hn, hw'⟩

theorem readsItems_member (h : ReadsValues (inner.eval call) G d) :
    ReadsItems ((Grammar.member inner).eval call) G '\x7d' (Member d) := by
  rintro _ _ ch r l ⟨n, hn, @⟨a, b, c, e, key, t, v, n, ha, hb, hc, he, hk, ht⟩⟩ hch hl
  have hcolon : blanks.admits ':' = false := by decide
  -- the key, with the blanks around it
  have htext : skip l = '"' :: key ++ '"' :: (b ++ ':' :: (c ++ t ++ e ++ ch :: r)) := by
    rw [hl]
    simp only [List.append_assoc, List.cons_append]
    rw [skip_append_of_isBlank ha, skip_cons (by decide)]
  have hkey := reads_stringLiteral call G hk (b ++ ':' :: (c ++ t ++ e ++ ch :: r))
  rw [← htext] at hkey
  have hkey := (reads_spaced call G hkey).map Text.asString
  rw [skip_append_of_isBlank hb, skip_cons hcolon] at hkey
  -- the value, with the blanks around it
  have hval : ((Grammar.spaced inner).eval call).Reads G (c ++ t ++ e ++ ch :: r) (ch :: r)
      v := by
    have helem : Element d (c ++ t ++ e) v := ⟨c, t, e, n, rfl, hc, ht, hn, he⟩
    rcases hch with rfl | rfl
    · exact reads_element call G h helem (by decide) (by decide) rfl
    · exact reads_element call G h helem (by decide) (by decide) rfl
  exact hkey.both ((reads_char call G rfl _).preceded hval)

theorem covers_member (h : ReadsValues (inner.eval call) G d) :
    ((Grammar.member inner).eval call).Covers G (Member d) := by
  refine (Covers.both ((covers_spaced call G (covers_stringLiteral call G)).map Text.asString)
    (Covers.preceded (covers_literal call G ":") (covers_element call G h))).mono ?_
  rintro t ⟨k, v⟩ ⟨_, _, rfl, ⟨_, ⟨a, _, b, rfl, ha, ⟨key, hk, rfl, rfl⟩, hb⟩, rfl⟩,
    _, _, _, rfl, ⟨rfl, _⟩, c, u, e, n, rfl, hc, hu, hn, he⟩
  refine ⟨n, hn, ?_⟩
  have := DerivesMember.mk ha hb hc he hk hu
  simpa [Text.asString] using this

/-! ### Both kinds of containers -/

/-- No element begins with a bracket that closes. -/
theorem refuses_element_of_closing (h : ReadsValues (inner.eval call) G d) (r : List Char) :
    ((Grammar.spaced inner).eval call).Refuses G (']' :: r) := by
  refine (covers_element call G h).refuses ?_
  rintro _ v r' ⟨w, u, w', n, rfl, hw, hu, _, _⟩ heq
  have hskip := congrArg skip heq
  rw [skip_cons (by decide), List.append_assoc, List.append_assoc,
    skip_append_of_isBlank hw, hu.skip_append] at hskip
  obtain ⟨ch, t', rfl, hch⟩ := hu.exists_cons
  exact hch.ne (by decide) (List.cons.inj hskip).1

/-- No member begins with a brace that closes. -/
theorem refuses_member_of_closing (h : ReadsValues (inner.eval call) G d) (r : List Char) :
    ((Grammar.member inner).eval call).Refuses G ('\x7d' :: r) := by
  refine (covers_member call G h).refuses ?_
  rintro _ _ r' ⟨n, _, @⟨a, b, c, e, key, t, v, _, ha, hb, hc, he, hk, ht⟩⟩ heq
  have hskip := congrArg skip heq
  simp only [List.append_assoc, List.cons_append] at hskip
  rw [skip_cons (by decide), skip_append_of_isBlank ha, skip_cons (by decide)] at hskip
  exact absurd (List.cons.inj hskip).1 (by decide)

/-- The arrays of level `d + 1` at most are the arrays of elements of level `d` at most. -/
theorem covers_array (h : ReadsValues (inner.eval call) G d) :
    ((Grammar.array inner).eval call).Covers G fun t v =>
      (∃ t', t = '[' :: t') ∧ ∃ n ≤ d + 1, Derives t v n := by
  refine ((covers_enclosed call G (show "[".toList = ['['] from rfl)
    (show "]".toList = [']'] from rfl) (padded_element d)
    (covers_element call G h)).map Value.array).mono ?_
  rintro t v ⟨vs, ⟨T, rfl, ⟨hT, rfl⟩ | hT⟩, rfl⟩
  · exact ⟨⟨_, rfl⟩, 1, by omega, .emptyArray hT⟩
  · obtain ⟨n, hn, hT⟩ := commaList_element_iff.mp hT
    have := Derives.array isBlank_nil hT isBlank_nil
    exact ⟨⟨_, rfl⟩, n + 1, by omega, by simpa using this⟩

theorem covers_object (h : ReadsValues (inner.eval call) G d) :
    ((Grammar.object inner).eval call).Covers G fun t v =>
      (∃ t', t = '\x7b' :: t') ∧ ∃ n ≤ d + 1, Derives t v n := by
  refine ((covers_enclosed call G (show "\x7b".toList = ['\x7b'] from rfl)
    (show "\x7d".toList = ['\x7d'] from rfl) (padded_member d)
    (covers_member call G h)).map Value.ofPairs).mono ?_
  rintro t v ⟨vs, ⟨T, rfl, ⟨hT, rfl⟩ | hT⟩, rfl⟩
  · exact ⟨⟨_, rfl⟩, 1, by omega, .emptyObject hT⟩
  · obtain ⟨n, hn, hT⟩ := commaList_member_iff.mp hT
    have := Derives.object isBlank_nil hT isBlank_nil
    exact ⟨⟨_, rfl⟩, n + 1, by omega, by simpa using this⟩

theorem reads_emptyArray (h : ReadsValues (inner.eval call) G d) {w : List Char}
    (hw : IsBlank w) (r : List Char) :
    ((Grammar.array inner).eval call).Reads G ('[' :: (w ++ ']' :: r)) r (.array []) :=
  (reads_enclosed_nil call G rfl rfl (by decide) (refuses_element_of_closing call G h r)
    hw).map Value.array

theorem reads_array (h : ReadsValues (inner.eval call) G d) {w t w' : List Char}
    {vs : List Value} {n : Nat} (hw : IsBlank w) (ht : DerivesElements t vs n) (hn : n ≤ d)
    (hw' : IsBlank w') (r : List Char) :
    ((Grammar.array inner).eval call).Reads G ('[' :: (w ++ t ++ w' ++ ']' :: r)) r
      (.array vs) := by
  have hlist := commaList_element_iff.mpr ⟨n, hn, ht⟩
  have hlist := (padded_element d).interleaved_after hw'
    ((padded_element d).interleaved_before hw hlist)
  exact (reads_enclosed call G rfl rfl (by decide) (by decide) (readsItems_element call G h)
    hlist).map Value.array

theorem reads_emptyObject (h : ReadsValues (inner.eval call) G d) {w : List Char}
    (hw : IsBlank w) (r : List Char) :
    ((Grammar.object inner).eval call).Reads G ('\x7b' :: (w ++ '\x7d' :: r)) r
      (.object []) :=
  (reads_enclosed_nil call G rfl rfl (by decide) (refuses_member_of_closing call G h r)
    hw).map Value.ofPairs

theorem reads_object (h : ReadsValues (inner.eval call) G d) {w t w' : List Char}
    {members : List (String × Value)} {n : Nat} (hw : IsBlank w)
    (ht : DerivesMembers t members n) (hn : n ≤ d) (hw' : IsBlank w') (r : List Char) :
    ((Grammar.object inner).eval call).Reads G ('\x7b' :: (w ++ t ++ w' ++ '\x7d' :: r)) r
      (.ofPairs members) := by
  have hlist := commaList_member_iff.mpr ⟨n, hn, ht⟩
  have hlist := (padded_member d).interleaved_after hw'
    ((padded_member d).interleaved_before hw hlist)
  exact (reads_enclosed call G rfl rfl (by decide) (by decide) (readsItems_member call G h)
    hlist).map Value.ofPairs

end Inner

end Json
end Descent
