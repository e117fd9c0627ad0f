import Descent.Json.Derivation
import Descent.Proofs.Language
import Descent.Proofs.Number.Positional

/-!
# Blanks, strings and numbers

The parts of a JSON text without parts of their own.  For each of them there is a rule that
says on which texts it reads, and a language that covers it.

Blanks are read wherever they may stand, so two inputs that differ in their leading blanks
are read alike by everything that begins with blanks.  `skip` is the input without them.

A number is the one part that does not show where it ends: more digits, or a point and a
digit, would make another number of it.  `NumberEnds` says that what follows holds neither.
-/

namespace Descent
namespace Json

open Descent.Parser

variable {ρ : Type} {τ : ρ → Type} (call : ∀ r, Parser (List Char) (τ r))
variable (G : Array DepthGuard) {α : Type}

/-! ## Blanks -/

/-- The input without its leading blanks. -/
def skip (l : List Char) : List Char := l.dropWhile blanks.admits

theorem skip_append_of_isBlank {w : List Char} (hw : IsBlank w) (l : List Char) :
    skip (w ++ l) = skip l := List.dropWhile_append_of_pos hw

theorem skip_cons {ch : Char} (h : blanks.admits ch = false) (l : List Char) :
    skip (ch :: l) = ch :: l := List.dropWhile_cons_of_neg (by rw [h]; exact Bool.false_ne_true)

theorem skip_eq_nil {w : List Char} (hw : IsBlank w) : skip w = [] := by
  have := skip_append_of_isBlank hw []
  rwa [List.append_nil] at this

/-- The blanks that are left out, and the rest. -/
theorem exists_isBlank_append_skip (l : List Char) : ∃ w, IsBlank w ∧ l = w ++ skip l :=
  ⟨l.takeWhile blanks.admits, fun ch hch => List.all_eq_true.mp List.all_takeWhile ch hch,
    (List.takeWhile_append_dropWhile).symm⟩

theorem skip_skip (l : List Char) : skip (skip l) = skip l := by
  obtain ⟨w, hw, hl⟩ := exists_isBlank_append_skip l
  conv_rhs => rw [hl, skip_append_of_isBlank hw]

/-- Blanks in front of a text that begins with none do not reach into it. -/
theorem skip_append {s : List Char} (hs : skip s = s) (t : List Char) :
    skip (t ++ s) = skip t ++ s := by
  unfold skip at hs ⊢
  rw [List.dropWhile_append, hs]
  split
  · next h => rw [List.isEmpty_iff.mp h, List.nil_append]
  · rfl

theorem length_skip_le (l : List Char) : (skip l).length ≤ l.length :=
  (List.dropWhile_suffix _).length_le

/-- What is left begins with no blank. -/
theorem head_skip (l : List Char) : ∀ ch ∈ (skip l).head?, blanks.admits ch = false := by
  intro ch hch
  have h := List.head?_dropWhile_not blanks.admits l
  rw [Option.mem_def, skip] at hch
  rw [hch] at h
  exact h

theorem reads_blank (l : List Char) :
    ∃ o, (Grammar.blank.eval call : Parser (List Char) _).Reads G l (skip l) o := by
  obtain ⟨w, hw, hl⟩ := exists_isBlank_append_skip l
  have hskip := head_skip l
  by_cases hne : w = []
  · refine ⟨none, ?_⟩
    rw [hne, List.nil_append] at hl
    rw [← hl] at hskip ⊢
    refine Refuses.optional ((covers_run call G blanks).refuses ?_)
    rintro t a r ⟨ht, hall, _⟩ rfl
    obtain ⟨ch, t', rfl⟩ := List.exists_cons_of_ne_nil ht
    have h₁ := hall ch (List.mem_cons_self ..)
    rw [hskip ch rfl] at h₁
    exact Bool.false_ne_true h₁
  · have h := (reads_run call G hne hw hskip).optional
    rw [← hl] at h
    exact ⟨_, h⟩

theorem covers_blank :
    (Grammar.blank.eval call : Parser (List Char) _).Covers G fun t _ => IsBlank t := by
  refine (Covers.optional (covers_run call G blanks)).mono ?_
  rintro t o (⟨rfl, _⟩ | ⟨a, ⟨_, h, _⟩, _⟩)
  · exact isBlank_nil
  · exact h

/-- A part with blanks around it takes the blanks before it and the blanks after it. -/
theorem reads_spaced {p : Expr Primitive τ α} {l m : List Char} {a : α}
    (h : (p.eval call).Reads G (skip l) m a) :
    ((Grammar.spaced p).eval call).Reads G l (skip m) a := by
  obtain ⟨o, ho⟩ := reads_blank call G l
  obtain ⟨o', ho'⟩ := reads_blank call G m
  exact (ho.preceded h).terminated ho'

theorem covers_spaced {p : Expr Primitive τ α} {L : List Char → α → Prop}
    (h : (p.eval call).Covers G L) :
    ((Grammar.spaced p).eval call).Covers G fun t a =>
      ∃ w u w', t = w ++ u ++ w' ∧ IsBlank w ∧ L u a ∧ IsBlank w' := by
  refine (Covers.terminated (Covers.preceded (covers_blank call G) h)
    (covers_blank call G)).mono ?_
  rintro t a ⟨_, w', _, ht, ⟨w, u, _, rfl, hw, hu⟩, hw'⟩
  exact ⟨w, u, w', ht, hw, hu, hw'⟩

/-! ## Single characters and commas -/

/-- A literal of one character reads that character. -/
theorem reads_char {s : String} {ch : Char} (hs : s.toList = [ch]) (r : List Char) :
    ((Expr.literal s : Expr Primitive τ Text).eval call).Reads G (ch :: r) r
      (Text.ofString s) := by
  have h := reads_literal call G s r
  rwa [hs, List.singleton_append] at h

theorem reads_comma {l m : List Char} (h : skip l = ',' :: m) :
    (Grammar.comma.eval call : Parser (List Char) _).Reads G l (skip m)
      (Text.ofString ",") := by
  refine reads_spaced call G ?_
  rw [h]
  exact reads_char call G rfl m

theorem covers_comma :
    (Grammar.comma.eval call : Parser (List Char) _).Covers G fun t _ =>
      ∃ w w', t = w ++ ',' :: w' ∧ IsBlank w ∧ IsBlank w' := by
  refine (covers_spaced call G (covers_literal call G ",")).mono ?_
  rintro t a ⟨w, u, w', rfl, hw, ⟨rfl, _⟩, hw'⟩
  exact ⟨w, w', by simp, hw, hw'⟩

/-- Where no comma is the first character that is not blank, none is read. -/
theorem refuses_comma {l : List Char} (h : ∀ m, skip l ≠ ',' :: m) :
    (Grammar.comma.eval call : Parser (List Char) _).Refuses G l := by
  refine (covers_comma call G).refuses ?_
  rintro t a r ⟨w, w', rfl, hw, _⟩ rfl
  refine h (w' ++ r) ?_
  rw [List.append_assoc, skip_append_of_isBlank hw]
  exact skip_cons (by decide) _

/-! ## Strings -/

theorem reads_stringLiteral {content : List Char} (h : '"' ∉ content) (r : List Char) :
    (Grammar.stringLiteral.eval call : Parser (List Char) _).Reads G
      ('"' :: content ++ '"' :: r) r content.toArray := by
  have hin : ∀ ch ∈ content, (CharClass.noneOf ['"']).admits ch = true := by
    intro ch hch
    rw [CharClass.admits_noneOf, List.mem_singleton]
    rintro rfl
    exact h hch
  have hrun := yields_runOrEmpty call G (.noneOf ['"']) (content ++ '"' :: r)
  rw [List.dropWhile_append_of_pos hin, List.takeWhile_append_of_pos hin,
    List.dropWhile_cons_of_neg (by decide), List.takeWhile_cons_of_neg (by decide),
    List.append_nil] at hrun
  exact ((reads_char call G rfl _).preceded hrun).terminated (reads_char call G rfl r)

theorem covers_stringLiteral :
    (Grammar.stringLiteral.eval call : Parser (List Char) _).Covers G fun t a =>
      ∃ content, '"' ∉ content ∧ t = '"' :: content ++ ['"'] ∧ a = content.toArray := by
  refine (Covers.terminated (Covers.preceded (covers_literal call G "\"")
    (covers_runOrEmpty call G (.noneOf ['"']))) (covers_literal call G "\"")).mono ?_
  rintro t a ⟨_, _, _, rfl, ⟨_, content, _, rfl, ⟨rfl, _⟩, hin, rfl⟩, rfl, _⟩
  refine ⟨content, fun hq => ?_, by simp, rfl⟩
  exact (CharClass.admits_noneOf _ _).mp (hin '"' hq) (List.mem_singleton_self _)

theorem reads_string {content : List Char} (h : '"' ∉ content) (r : List Char) :
    (Grammar.string.eval call : Parser (List Char) _).Reads G
      ('"' :: content ++ '"' :: r) r (.string (String.ofList content)) :=
  (reads_stringLiteral call G h r).map _

theorem covers_string :
    (Grammar.string.eval call : Parser (List Char) _).Covers G fun t v =>
      ∃ content, '"' ∉ content ∧ t = '"' :: content ++ ['"'] ∧
        v = .string (String.ofList content) := by
  refine ((covers_stringLiteral call G).map _).mono ?_
  rintro t v ⟨a, ⟨content, hc, ht, rfl⟩, rfl⟩
  exact ⟨content, hc, ht, rfl⟩

/-! ## Numbers -/

/-- A digit. -/
def IsDigit (ch : Char) : Prop := '0' ≤ ch ∧ ch ≤ '9'

/-- Nothing in `r` makes the number `t` longer: no digit, and no point with a digit after
it, unless `t` has a point already. -/
structure NumberEnds (t r : List Char) : Prop where
  no_digit : ∀ ch ∈ r.head?, ¬ IsDigit ch
  no_fraction : '.' ∉ t → ∀ ch r', r = '.' :: ch :: r' → ¬ IsDigit ch

theorem reads_digits {w r : List Char} (hw : IsDigits w)
    (hr : ∀ ch ∈ r.head?, ¬ IsDigit ch) :
    (Grammar.digits.eval call : Parser (List Char) _).Reads G (w ++ r) r w.toArray := by
  refine reads_run call G hw.1 (fun ch hch => ?_) (fun ch hch => ?_)
  · exact (CharClass.admits_between _ _ _).mpr (hw.2 ch hch)
  · rw [← Bool.not_eq_true, CharClass.admits_between]
    exact hr ch hch

theorem covers_digits :
    (Grammar.digits.eval call : Parser (List Char) _).Covers G fun t a =>
      IsDigits t ∧ a = t.toArray := by
  refine (covers_run call G (.between '0' '9')).mono ?_
  rintro t a ⟨hne, hall, ha⟩
  exact ⟨⟨hne, fun ch hch => (CharClass.admits_between _ _ _).mp (hall ch hch)⟩, ha⟩

/-- A sign, or none, stands before digits and what follows them. -/
theorem ofString?_signText {whole : List Char} (hw : IsDigits whole) (negative : Bool)
    (rest : List Char) :
    Decimal.ofString? (String.ofList (signText negative ++ (whole ++ rest)))
      = Decimal.readUnsigned negative (whole ++ rest) := by
  cases negative with
  | true =>
    rw [Decimal.ofString?, String.toList_ofList]
    rfl
  | false => exact Decimal.ofString?_unsigned hw.1 hw.2 rest

theorem reads_sign (negative : Bool) {l : List Char} (h : ∀ ch ∈ l.head?, ch ≠ '-') :
    (Grammar.sign.eval call : Parser (List Char) _).Reads G (signText negative ++ l) l
      (signText negative).toArray := by
  cases negative with
  | true => exact (reads_char call G (s := "-") rfl l).optional.map fun sign => sign.getD #[]
  | false =>
    have hno : ((Expr.literal "-" : Expr Primitive τ Text).eval call).Refuses G l := by
      refine (covers_literal call G "-").refuses ?_
      rintro t a r ⟨rfl, _⟩ rfl
      exact h '-' rfl rfl
    exact hno.optional.map fun sign => sign.getD #[]

theorem covers_sign :
    (Grammar.sign.eval call : Parser (List Char) _).Covers G fun t a =>
      ∃ negative, t = signText negative ∧ a = t.toArray := by
  refine ((covers_literal call G "-").optional.map fun sign => sign.getD #[]).mono ?_
  rintro t a ⟨o, ⟨rfl, rfl⟩ | ⟨a, ⟨rfl, rfl⟩, rfl⟩, rfl⟩
  · exact ⟨false, rfl, rfl⟩
  · exact ⟨true, rfl, rfl⟩

/-- The parts of a number make the decimal that their digits denote. -/
theorem numberOf_digits {whole : List Char} (hw : IsDigits whole) (negative : Bool) :
    Grammar.numberOf [(signText negative).toArray, whole.toArray]
      = .ok (.number (.ofDigits negative whole [])) := by
  have htext : (Text.join [(signText negative).toArray, whole.toArray]).asString
      = String.ofList (signText negative ++ (whole ++ [])) := by
    simp [Text.asString]
  rw [Grammar.numberOf, htext, ofString?_signText hw, List.append_nil,
    Decimal.readUnsigned_digits hw.1 hw.2]

theorem numberOf_point {whole fraction : List Char} (hw : IsDigits whole)
    (hf : IsDigits fraction) (negative : Bool) :
    Grammar.numberOf
        [(signText negative).toArray, whole.toArray, Text.ofString ".", fraction.toArray]
      = .ok (.number (.ofDigits negative whole fraction)) := by
  have htext : (Text.join [(signText negative).toArray, whole.toArray, Text.ofString ".",
      fraction.toArray]).asString
        = String.ofList (signText negative ++ (whole ++ '.' :: fraction)) := by
    simp [Text.asString, Text.ofString]
  rw [Grammar.numberOf, htext, ofString?_signText hw,
    Decimal.readUnsigned_point hw.1 hw.2 hf.2]

/-- Digits neither begin with a minus sign nor contain a point. -/
theorem IsDigits.head_ne {w : List Char} (hw : IsDigits w) (r : List Char) :
    ∀ ch ∈ (w ++ r).head?, ch ≠ '-' := by
  obtain ⟨ch, w', rfl⟩ := List.exists_cons_of_ne_nil hw.1
  rintro ch' hch rfl
  have hd := hw.2 ch (List.mem_cons_self ..)
  simp only [List.cons_append, List.head?_cons, Option.mem_some_iff] at hch
  subst hch
  exact absurd hd (by decide)

theorem IsDigits.not_mem_point {w : List Char} (hw : IsDigits w) : '.' ∉ w :=
  fun h => absurd (hw.2 '.' h) (by decide)

theorem reads_fractional {negative : Bool} {whole fraction r : List Char}
    (hw : IsDigits whole) (hf : IsDigits fraction) (hr : ∀ ch ∈ r.head?, ¬ IsDigit ch) :
    (Grammar.fractional.eval call : Parser (List Char) _).Reads G
      (signText negative ++ (whole ++ '.' :: (fraction ++ r))) r
      (.number (.ofDigits negative whole fraction)) := by
  have hwhole := reads_digits call G (r := '.' :: (fraction ++ r)) hw (by
    rintro ch hch
    obtain rfl : '.' = ch := by simpa using hch
    unfold IsDigit
    decide)
  refine Reads.mapExcept call ?_ (numberOf_point hw hf negative)
  rw [Expr.eval_sequenceOf]
  exact (reads_sign call G negative (hw.head_ne _)).sequence_cons (hwhole.sequence_cons
    ((reads_char call G (s := ".") rfl (fraction ++ r)).sequence_cons
      ((reads_digits call G hf hr).sequence_cons (reads_succeed []))))

theorem reads_integer {negative : Bool} {whole r : List Char} (hw : IsDigits whole)
    (hr : ∀ ch ∈ r.head?, ¬ IsDigit ch) :
    (Grammar.integer.eval call : Parser (List Char) _).Reads G
      (signText negative ++ (whole ++ r)) r (.number (.ofDigits negative whole [])) := by
  refine Reads.mapExcept call ?_ (numberOf_digits hw negative)
  rw [Expr.eval_sequenceOf]
  exact (reads_sign call G negative (hw.head_ne r)).sequence_cons
    ((reads_digits call G hw hr).sequence_cons (reads_succeed []))

/-- Without a point and a digit after the digits, there is no number with a fraction. -/
theorem refuses_fractional {negative : Bool} {whole r : List Char} (hw : IsDigits whole)
    (hr : NumberEnds (signText negative ++ whole) r) :
    (Grammar.fractional.eval call : Parser (List Char) _).Refuses G
      (signText negative ++ (whole ++ r)) := by
  have hsign := reads_sign call G negative (hw.head_ne r)
  have hwhole := reads_digits call G hw hr.no_digit
  have hnone : '.' ∉ signText negative ++ whole := by
    rw [List.mem_append]
    rintro (h | h)
    · cases negative <;> simp [signText] at h
    · exact hw.not_mem_point h
  have hparts : ((Expr.sequenceOf [Grammar.sign, Grammar.digits, .literal ".",
      Grammar.digits]).eval call).Refuses G (signText negative ++ (whole ++ r)) := by
    rw [Expr.eval_sequenceOf]
    refine Refuses.sequence_cons_next hsign (Refuses.sequence_cons_next hwhole ?_)
    rcases covers_literal call G "." r with ⟨t, a, r', rfl, ⟨rfl, rfl⟩, hpoint⟩ | hpoint
    · refine Refuses.sequence_cons_next hpoint (Refuses.sequence_cons ?_)
      refine (covers_digits call G).refuses ?_
      rintro t a r'' ⟨ht, _⟩ rfl
      obtain ⟨ch, t', rfl⟩ := List.exists_cons_of_ne_nil ht.1
      exact hr.no_fraction hnone ch (t' ++ r'') rfl (ht.2 ch (List.mem_cons_self ..))
    · exact Refuses.sequence_cons hpoint
  exact hparts.flatMap

/-- **A number is read up to where it ends.** -/
theorem reads_number {t r : List Char} {d : Decimal} (h : DerivesNumber t d)
    (hr : NumberEnds t r) :
    (Grammar.number.eval call : Parser (List Char) _).Reads G (t ++ r) r (.number d) := by
  cases h with
  | integer hw =>
    rw [List.append_assoc]
    exact (refuses_fractional call G hw hr).reads_oneOf fun j l =>
      (reads_integer call G hw hr.no_digit).oneOfFrom j l
  | fractional hw hf =>
    rw [List.append_assoc, List.append_assoc, List.cons_append]
    exact (reads_fractional call G hw hf hr.no_digit).oneOf

theorem covers_fractional :
    (Grammar.fractional.eval call : Parser (List Char) _).Covers G fun t v =>
      ∃ d, DerivesNumber t d ∧ v = .number d := by
  refine Covers.mapExcept call _ (f := Grammar.numberOf) (by
    rw [Expr.eval_sequenceOf]
    exact (covers_sign call G).sequence_cons ((covers_digits call G).sequence_cons
      ((covers_literal call G ".").sequence_cons ((covers_digits call G).sequence_cons
        .sequence_nil)))) ?_
  rintro t parts ⟨_, _, _, _, rfl, rfl, ⟨negative, rfl, rfl⟩, whole, _, _, _, rfl, rfl,
    ⟨hw, rfl⟩, _, _, _, _, rfl, rfl, ⟨rfl, rfl⟩, fraction, _, _, _, rfl, rfl, ⟨hf, rfl⟩,
    rfl, rfl⟩
  have h := @DerivesNumber.fractional negative whole fraction hw hf
  exact ⟨_, numberOf_point hw hf negative, _, by simpa using h, rfl⟩

theorem covers_integer :
    (Grammar.integer.eval call : Parser (List Char) _).Covers G fun t v =>
      ∃ d, DerivesNumber t d ∧ v = .number d := by
  refine Covers.mapExcept call _ (f := Grammar.numberOf) (by
    rw [Expr.eval_sequenceOf]
    exact (covers_sign call G).sequence_cons ((covers_digits call G).sequence_cons
      .sequence_nil)) ?_
  rintro t parts ⟨_, _, _, _, rfl, rfl, ⟨negative, rfl, rfl⟩, whole, _, _, _, rfl, rfl,
    ⟨hw, rfl⟩, rfl, rfl⟩
  have h := @DerivesNumber.integer negative whole hw
  exact ⟨_, numberOf_digits hw negative, _, by simpa using h, rfl⟩

theorem covers_number :
    (Grammar.number.eval call : Parser (List Char) _).Covers G fun t v =>
      ∃ d, DerivesNumber t d ∧ v = .number d := by
  refine (Covers.oneOf (covers_fractional call G) (Covers.oneOfFrom_cons
    (covers_integer call G) fun j i => Covers.oneOfFrom_nil j i)).mono ?_
  rintro t v (h | h | h)
  · exact h
  · exact h
  · exact h.elim

end Json
end Descent
