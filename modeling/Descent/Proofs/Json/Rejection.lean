import Descent.Proofs.Farthest
import Descent.Proofs.Json.Documents
import Descent.Proofs.Json.Prefixes
import Descent.Proofs.Locations
import Mathlib.Order.Bounds.Basic

/-!
# Where a text is rejected

The report of a text that is no document names one place, and it is one of three.

A value may stand in front, and what follows it is not blank: then the place is the first
character that is not blank after the longest such value.  If no value stands there, all
alternatives have failed, and the choice reports the largest location.  A failure inside an
array, an object or a number lies at the location 0 or 1 of its own input, however far in
the text that input is (`locatesWithin_array`).  The string comes first of all and fails at
the location 1, so these never win over it, and a word that is given up later does: the
place is counted from the first character.  A string that is not closed fails at the end of
the text, and then the other alternatives have failed at their first character.
-/

namespace Descent
namespace Json

open Descent.Parser

/-! ## Failures of the alternatives -/

section Alternatives

variable {ρ : Type} {τ : ρ → Type} (call : ∀ r, Parser (List Char) (τ r))
variable (G : Array DepthGuard) {α : Type}

theorem locatesWithin_digits :
    (Grammar.digits.eval call : Parser (List Char) _).LocatesWithin 1 :=
  (locatesWithin_run call (.between '0' '9')).mono (by decide)

/-- A number fails within its first character, also after a point. -/
theorem locatesWithin_number :
    (Grammar.number.eval call : Parser (List Char) _).LocatesWithin 1 := by
  have hsign : (Grammar.sign.eval call : Parser (List Char) _).LocatesWithin 1 :=
    LocatesWithin.optional.map fun sign : Option Text => sign.getD #[]
  have hdigits := locatesWithin_digits call
  have hpoint : ((Expr.literal "." : Expr Primitive τ Text).eval call).LocatesWithin 1 :=
    locatesWithin_literal call "."
  -- both kinds of numbers are sequences of such parts
  have parts : ∀ {ps : List (Expr Primitive τ Text)}, (∀ p ∈ ps,
      (p.eval call : Parser (List Char) _).LocatesWithin 1) →
      ((Expr.mapExcept Grammar.numberOf (.sequenceOf ps)).eval call).LocatesWithin 1 := by
    intro ps hps
    refine LocatesWithin.mapExcept call _ _ ?_
    rw [Expr.eval_sequenceOf]
    exact LocatesWithin.sequence (List.forall_mem_map.mpr hps)
  have hfractional : (Grammar.fractional.eval call : Parser (List Char) _).LocatesWithin 1 :=
    parts (by simp [hsign, hdigits, hpoint])
  have hinteger : (Grammar.integer.eval call : Parser (List Char) _).LocatesWithin 1 :=
    parts (by simp [hsign, hdigits])
  exact hfractional.oneOf (List.forall_mem_singleton.mpr hinteger)

/-- Brackets are what can be missing of a container, for its parts are a repetition. -/
theorem locatesWithin_enclosed {opening closing : String} {op cl : Char}
    (ho : opening.toList = [op]) (hc : closing.toList = [cl]) (p : Expr Primitive τ α) :
    ((Grammar.enclosed opening closing p).eval call).LocatesWithin 1 := by
  have bracket : ∀ {s : String} {c : Char}, s.toList = [c] →
      ((Expr.literal s : Expr Primitive τ Text).eval call).LocatesWithin 1 := by
    intro s c hs
    have h := locatesWithin_literal call s
    rwa [hs] at h
  exact (bracket ho).preceded (LocatesWithin.optional.preceded
    (LocatesWithin.separated.terminated (LocatesWithin.optional.preceded (bracket hc))))

theorem locatesWithin_object (inner : Expr Primitive τ Value) :
    ((Grammar.object inner).eval call).LocatesWithin 1 :=
  (locatesWithin_enclosed call rfl rfl (Grammar.member inner)).map Value.ofPairs

theorem locatesWithin_array (inner : Expr Primitive τ Value) :
    ((Grammar.array inner).eval call).LocatesWithin 1 :=
  (locatesWithin_enclosed call rfl rfl (Grammar.spaced inner)).map Value.array

variable {l : List Char}

/-- A literal of one character fails at that character. -/
theorem fails_char {s : String} {ch : Char} (hs : s.toList = [ch])
    (h : l.head? ≠ some ch) :
    ((Expr.literal s : Expr Primitive τ Text).eval call).Fails G l l 1 := by
  cases l with
  | nil =>
    have h := fails_literal call G (s := s) (l := []) (by rw [hs]; simp)
    rwa [Text.commonPrefix_nil_right] at h
  | cons c l =>
    have hne : ch ≠ c := by
      rintro rfl
      exact h rfl
    have h := fails_literal call G (s := s) (l := c :: l) (by
      rw [hs, List.cons_prefix_cons]
      exact fun h => hne h.1)
    rwa [hs, Text.commonPrefix_cons, if_neg hne] at h

theorem fails_string_of_head (h : l.head? ≠ some '"') :
    (Grammar.string.eval call : Parser (List Char) _).Fails G l l 1 :=
  ((fails_char call G rfl h).preceded.terminated).map _

/-- A string that is not closed fails at the end of the text. -/
theorem fails_string_of_open (h : '"' ∉ l) :
    (Grammar.string.eval call : Parser (List Char) _).Fails G ('"' :: l) [] 1 := by
  have hrun := yields_runOrEmpty call G (.noneOf ['"']) l
  have hin : ∀ ch ∈ l, (CharClass.noneOf ['"']).admits ch = true := by
    intro ch hch
    rw [CharClass.admits_noneOf, List.mem_singleton]
    rintro rfl
    exact h hch
  have hrest := (takeWhile_dropWhile_append (r := []) hin (by simp)).2
  rw [List.append_nil] at hrest
  rw [hrest] at hrun
  exact (Fails.terminated_next ((reads_char call G rfl l).preceded hrun)
    (fails_char call G rfl (by simp))).map _

/-- How much of a word stands at the front. -/
abbrev wordPrefix (word : String) (l : List Char) : Nat := Text.commonPrefix word.toList l

/-- How much of one of the three words stands at the front, whichever goes on longest. -/
def wordsPrefix (l : List Char) : Nat :=
  max (wordPrefix "null" l) (max (wordPrefix "true" l) (wordPrefix "false" l))

/-- It is the length of the longest text that one of the words and `l` both begin with. -/
theorem wordsPrefix_isGreatest (l : List Char) :
    IsGreatest {k | ∃ word ∈ ["null", "true", "false"], ∃ p, p <+: word.toList ∧ p <+: l ∧
      p.length = k} (wordsPrefix l) := by
  have hword := fun word : String => Text.commonPrefix_isGreatest word.toList l
  have hwords := (hword "null").union ((hword "true").union (hword "false"))
  simp only [List.exists_mem_cons_iff, List.not_mem_nil, false_and, exists_false, or_false]
  exact hwords

theorem fails_null (h : ¬ "null".toList <+: l) :
    (Grammar.null.eval call : Parser (List Char) _).Fails G l l (wordPrefix "null" l + 1) :=
  (fails_literal call G h).map _

theorem fails_bool (ht : ¬ "true".toList <+: l) (hf : ¬ "false".toList <+: l) :
    (Grammar.bool.eval call : Parser (List Char) _).Fails G l l
      (max (wordPrefix "true" l + 1) (wordPrefix "false" l + 1)) := by
  have htrue := (fails_literal call G ht).map fun _ => Value.bool true
  have hfalse := (fails_literal call G hf).map fun _ => Value.bool false
  have h := fails_oneOf htrue (List.forall₂_cons (b := (l, (wordPrefix "false" l : Int) + 1)).mpr
    ⟨hfalse, .nil⟩)
  rwa [farthest_cons_same, farthest_nil] at h

variable {inner : Expr Primitive τ Value} {j : List Char}

/-- If no alternative reads, the choice fails with the string, unless one of the words fails
at a greater location. -/
theorem fails_unguarded (hstring : (Grammar.string.eval call : Parser (List Char) _).Fails G l j 1)
    (hnumber : (Grammar.number.eval call : Parser (List Char) _).Refuses G l)
    (hobject : ((Grammar.object inner).eval call).Refuses G l)
    (harray : ((Grammar.array inner).eval call).Refuses G l) (hn : ¬ "null".toList <+: l)
    (ht : ¬ "true".toList <+: l) (hf : ¬ "false".toList <+: l) {f : List Char × Int}
    (hfar : farthest (j, 1) [(l, (wordPrefix "null" l : Int) + 1),
      (l, max ((wordPrefix "true" l : Int) + 1) (wordPrefix "false" l + 1))] = f) :
    ((unguarded inner).eval call).Fails G l f.1 f.2 := by
  obtain ⟨j₁, l₁, h₁, hle₁⟩ := hnumber.fails_within (locatesWithin_number call)
  obtain ⟨j₂, l₂, h₂, hle₂⟩ := hobject.fails_within (locatesWithin_object call inner)
  obtain ⟨j₃, l₃, h₃, hle₃⟩ := harray.fails_within (locatesWithin_array call inner)
  have hlater : List.Forall₂ (fun p f => Fails p G l f.1 f.2)
      [Grammar.number.eval call, (Grammar.object inner).eval call,
        (Grammar.array inner).eval call, Grammar.null.eval call, Grammar.bool.eval call]
      [(j₁, l₁), (j₂, l₂), (j₃, l₃), (l, (wordPrefix "null" l : Int) + 1),
        (l, max ((wordPrefix "true" l : Int) + 1) (wordPrefix "false" l + 1))] :=
    .cons h₁ (.cons h₂ (.cons h₃ (.cons (fails_null call G hn)
      (.cons (fails_bool call G ht hf) .nil))))
  have h := fails_oneOf hstring hlater
  rw [farthest_cons_of_le hle₁, farthest_cons_of_le hle₂, farthest_cons_of_le hle₃, hfar] at h
  rw [unguarded, Expr.eval_firstOf]
  exact h

/-- The failure of the values of level `d + 1` at most, where none of them stands. -/
theorem fails_unguarded_of_no_value {d : Nat} (h : ReadsValues (inner.eval call) G d)
    (hnone : ∀ t v, ValueText (d + 1) t v → ¬ t <+: l) :
    ((unguarded inner).eval call).Fails G l (if l.head? = some '"' then [] else l)
      (if l.head? = some '"' then 1 else 1 + wordsPrefix l) := by
  have hnumber : (Grammar.number.eval call : Parser (List Char) _).Refuses G l := by
    refine (covers_number call G).refuses ?_
    rintro t v r ⟨e, he, _⟩ hl
    exact hnone t (.number e) ⟨1, by omega, .number he⟩ ⟨r, hl.symm⟩
  have hobject : ((Grammar.object inner).eval call).Refuses G l :=
    (covers_object call G h).refuses fun t v r ht hl => hnone t v ht.2 ⟨r, hl.symm⟩
  have harray : ((Grammar.array inner).eval call).Refuses G l :=
    (covers_array call G h).refuses fun t v r ht hl => hnone t v ht.2 ⟨r, hl.symm⟩
  have hn : ¬ "null".toList <+: l := hnone _ _ ⟨1, by omega, .null⟩
  have ht : ¬ "true".toList <+: l := hnone _ _ ⟨1, by omega, .true⟩
  have hf : ¬ "false".toList <+: l := hnone _ _ ⟨1, by omega, .false⟩
  by_cases hquote : l.head? = some '"'
  · obtain ⟨l, rfl⟩ := List.head?_eq_some_iff.mp hquote
    -- a quotation mark further on would close the string
    have hopen : '"' ∉ l := by
      intro hin
      obtain ⟨content, r, rfl, hcontent⟩ := List.eq_append_cons_of_mem hin
      exact hnone _ _ ⟨1, by omega, .string hcontent⟩ ⟨r, by simp⟩
    rw [if_pos hquote, if_pos hquote]
    exact fails_unguarded call G (fails_string_of_open call G hopen) hnumber hobject harray hn
      ht hf rfl
  · rw [if_neg hquote, if_neg hquote]
    refine fails_unguarded call G (fails_string_of_head call G hquote) hnumber hobject harray
      hn ht hf (f := (l, _)) ?_
    rw [farthest_cons_same, farthest_cons_same, farthest_nil]
    refine congrArg (Prod.mk l) ?_
    unfold wordsPrefix
    omega

end Alternatives

/-- The rule for values fails like the alternatives inside its guard. -/
theorem fails_value_of_no_value (g : Nat) {d n : Nat} (hd : 1 ≤ d) (hn : d ≤ n)
    {G : Array DepthGuard} (hroom : room (guardOf G g) = d) {l : List Char}
    (hnone : ∀ t v, ValueText d t v → ¬ t <+: l) :
    ((Grammar.value (.ref ()) g).eval ((rules g).call n)).Fails G l
      (if l.head? = some '"' then [] else l)
      (if l.head? = some '"' then 1 else 1 + wordsPrefix l) := by
  obtain ⟨d, rfl⟩ := Nat.exists_eq_succ_of_ne_zero (Nat.one_le_iff_ne_zero.mp hd)
  obtain ⟨n, rfl⟩ := Nat.exists_eq_succ_of_ne_zero (show n ≠ 0 by omega)
  obtain ⟨inside, he, hin⟩ := room_enter hroom
  have hinner : ReadsValues
      ((Expr.ref () : Expr Primitive (fun _ : Unit => Value) Value).eval
        ((rules g).call (n + 1))) (G.setIfInBounds g inside) d :=
    readsValues_value g (Nat.le_of_succ_le_succ hn) hin
  exact Yields.guarded he (fails_unguarded_of_no_value _ _ hinner hnone)

/-! ## Places in the text -/

/-- The first position from `n` on that holds no blank, or the end of the text. -/
def afterBlanks (source : Text) (n : Nat) : Nat :=
  n + ((source.toList.drop n).takeWhile blanks.admits).length

theorem drop_afterBlanks (source : Text) (n : Nat) :
    source.toList.drop (afterBlanks source n) = skip (source.toList.drop n) := by
  rw [afterBlanks, ← List.drop_drop]
  exact (Primitive.take_drop_length_takeWhile _ _).2

theorem afterBlanks_le {source : Text} {n : Nat} (h : n ≤ source.size) :
    afterBlanks source n ≤ source.size := by
  have hle := (List.takeWhile_prefix (l := source.toList.drop n) blanks.admits).length_le
  have hsize : source.toList.length = source.size := Array.length_toList
  rw [List.length_drop] at hle
  unfold afterBlanks
  omega

theorem leaving_skip_drop {source : Text} {n : Nat} (h : n ≤ source.size) :
    Cursor.leaving source (skip (source.toList.drop n))
      = { source := source, pos := afterBlanks source n } := by
  rw [← drop_afterBlanks, Cursor.leaving_drop (afterBlanks_le h)]

/-- What comes after a text, apart from the blanks, begins where the blanks after it end. -/
theorem leaving_skip_of_drop_eq {source : Text} {n : Nat} (hn : n ≤ source.size)
    {t r : List Char} (h : source.toList.drop n = t ++ r) :
    Cursor.leaving source (skip r)
      = { source := source, pos := afterBlanks source (n + t.length) } := by
  have hafter : r = source.toList.drop (n + t.length) := by
    rw [← List.drop_drop, h, List.drop_left]
  have hle : n + t.length ≤ source.size := by
    have hlen := congrArg List.length h
    have hsize : source.toList.length = source.size := Array.length_toList
    rw [List.length_drop, List.length_append] at hlen
    omega
  rw [hafter, leaving_skip_drop hle]

/-! ## The report of a document -/

/-- **Where a rejected text is rejected.**  The parser of documents that is made for a nesting
limit returns, and it fails exactly on the texts that are no documents of an allowed level.
When it fails, let `p` be the position of the first character that is not blank.  If a value of
an allowed level stands at `p`, the failure lies at the location 0 of the first character that
is not blank after the longest such value.  If there is none and a quotation mark stands at
`p`, it lies at the location 1 of the end of the text.  In all other cases its input is the
cursor at `p`, also if the mismatch lies inside an array or an object, and its location is one
more than what the text at `p` shares with one of the words `null`, `true` and `false`. -/
theorem document_rejections (recursionLimit maxDepth : Int)
    (hd : 1 ≤ Depth.clamp recursionLimit maxDepth Limits.reserveFrames Limits.framesPerLevel)
    (s : RunState) (calls : Nat)
    (hcalls : (Depth.clamp recursionLimit maxDepth Limits.reserveFrames
      Limits.framesPerLevel).toNat ≤ calls) (source : Text) :
    let d := Depth.clamp recursionLimit maxDepth Limits.reserveFrames Limits.framesPerLevel
    let guard := s.addGuard recursionLimit maxDepth Limits.framesPerLevel
    let document := (rules guard.1).parse
      (Grammar.document (Grammar.value (.ref ()) guard.1)) calls
    let values := fun t v => ∃ n : Nat, (n : Int) ≤ d ∧ Derives t v n
    let p := afterBlanks source 0
    let rest := source.toList.drop p
    ∃ o s', document ({ source := source } : Cursor) guard.2 = .ok o s' ∧
      s'.guards = guard.2.guards ∧
      ((∃ j l, o = .failure j l) ↔
        ∀ v, ¬ ∃ n : Nat, (n : Int) ≤ d ∧ DerivesDocument source.toList v n) ∧
      ∀ j l, o = .failure j l →
        (∀ t, Longest values rest t →
          j = { source := source, pos := afterBlanks source (p + t.length) } ∧ l = 0) ∧
        ((∀ t v, values t v → ¬ t <+: rest) →
          if rest.head? = some '"' then j = { source := source, pos := source.size } ∧ l = 1
          else j = { source := source, pos := p } ∧ l = 1 + wordsPrefix rest) := by
  intro d guard document values p rest
  have hroom := room_addGuard s recursionLimit maxDepth
  have hvalue := readsValues_value guard.1 hcalls hroom
  have hvalues : values = ValueText d.toNat := valueText_toNat d
  have hrest : rest = skip source.toList := drop_afterBlanks source 0
  have hstart : Cursor.leaving source source.toList = { source := source } :=
    Cursor.leaving_toList source
  have hdocument := refuses_document_iff _ _ hvalue (l := source.toList)
  rw [hvalues, hrest, ← hstart]
  rcases hvalue.covers.reads_longest hvalue.reads_of_longest (skip source.toList) with
    ⟨t, v, r, hl, ht, hv, hread⟩ | ⟨hnone, _⟩
  · by_cases hr : skip r = []
    · have hok := reads_document_of_reads _ _ hread hr
      obtain ⟨s', hs', hg⟩ := Rules.parse_of_reads (List.suffix_refl _) hok
      refine ⟨_, s', hs', hg, ⟨?_, fun hnone => ?_⟩, fun j l hj => ?_⟩
      · rintro ⟨j, l, hj⟩
        cases hj
      · obtain ⟨j, l, hno⟩ := hdocument.mpr fun v n hn hv => hnone v ⟨n, by omega, hv⟩
        cases hok.unique hno
      · cases hj
    · have hfail := fails_document_of_reads _ _ hread hr
      obtain ⟨s', hs', hg, -⟩ := Rules.parse_of_fails (List.suffix_refl _) hfail
      rw [leaving_skip_of_drop_eq (afterBlanks_le (Nat.zero_le _)) (hrest.trans hl)] at hs'
      refine ⟨_, s', hs', hg, ⟨?_, fun _ => ⟨_, _, rfl⟩⟩, fun j l hj => ?_⟩
      · rintro - v ⟨n, hn, hv⟩
        exact hdocument.mp ⟨_, _, hfail⟩ v n (by omega) hv
      obtain ⟨rfl, rfl⟩ := Outcome.failure.inj hj
      refine ⟨fun u hu => ?_, fun hnone => ?_⟩
      · rw [hu.unique ht]
        exact ⟨rfl, rfl⟩
      · exact absurd ht.isPrefix (hnone t v ((hv v).mpr rfl))
  · have hfail := fails_document _ _ (fails_value_of_no_value guard.1 (by omega) hcalls hroom hnone)
    obtain ⟨s', hs', hg, -⟩ := Rules.parse_of_fails (List.suffix_refl _) hfail
    refine ⟨_, s', hs', hg, ⟨?_, fun _ => ⟨_, _, rfl⟩⟩, fun j l hj => ?_⟩
    · rintro - v ⟨n, hn, hv⟩
      exact hdocument.mp ⟨_, _, hfail⟩ v n (by omega) hv
    obtain ⟨rfl, rfl⟩ := Outcome.failure.inj hj
    refine ⟨fun u hu => ?_, fun _ => ?_⟩
    · obtain ⟨v, hv⟩ := hu.mem
      exact absurd hu.isPrefix (hnone u v hv)
    · split
      · refine ⟨?_, rfl⟩
        simp [Cursor.leaving]
      · exact ⟨leaving_skip_drop (Nat.zero_le _), rfl⟩

/-- On ` [1}` the failure lies at the bracket, and not at the brace, so no value stands at the
bracket. -/
theorem braceForBracket_rejected :
    (∃ s', ((rules 0).parse (Grammar.document (Grammar.value (.ref ()) 0)) 2)
        ({ source := #[' ', '[', '1', '\x7d'] } : Cursor) { guards := #[{ maxDepth := 2 }] }
      = .ok (.failure { source := #[' ', '[', '1', '\x7d'], pos := 1 } 1) s') ∧
    ∀ t, ¬ Longest (fun t v => ∃ n : Nat, (n : Int) ≤ 2 ∧ Derives t v n)
      ['[', '1', '\x7d'] t := by
  refine ⟨⟨_, rfl⟩, fun t ht => ?_⟩
  obtain ⟨o, s', ho, -, -, h⟩ := document_rejections 1000 2 (by decide) {} 2 (by decide)
    #[' ', '[', '1', '\x7d']
  cases ho
  exact absurd ((h _ _ rfl).1 t ht).2 (by decide)

end Json
end Descent
