import Descent.Proofs.Json.Tokens

/-!
# Arrays and objects

A container, a comma and an item all take the blanks that they meet, so where a derivation
puts blanks before or after an item, the parser may have taken them with the part before.
What does not depend on who takes them is the input without its leading blanks.  An item is
therefore said to be read from every input that, apart from leading blanks, is the text of
the item and what follows it (`ReadsItems`).

The items of a container are texts with commas between them.  If blanks at either end do not
lead out of the language of the items (`Padded`), then the blanks that the container and the
commas have taken can be given to the items next to them, and both accounts agree.
-/

namespace Descent
namespace Json

open Descent.Parser

variable {ρ : Type} {τ : ρ → Type} (call : ∀ r, Parser (List Char) (τ r))
variable (G : Array DepthGuard) {α : Type}

/-! ## Items with commas between them -/

/-- A language whose texts may have blanks added at either end. -/
structure Padded (L : List Char → α → Prop) : Prop where
  before : ∀ {w t a}, IsBlank w → L t a → L (w ++ t) a
  after : ∀ {t w a}, L t a → IsBlank w → L (t ++ w) a

/-- Texts of a language with commas between them, and the list of their values. -/
abbrev CommaList (L : List Char → α → Prop) : List Char → List α → Prop :=
  Interleaved L fun m => m = [',']

/-- From every input that is a text of `L` and a comma or the character `close` after it,
up to leading blanks, the value of the text is read. -/
def ReadsItems (p : Parser (List Char) α) (G : Array DepthGuard) (close : Char)
    (L : List Char → α → Prop) : Prop :=
  ∀ {t a ch r l}, L t a → ch = ',' ∨ ch = close → skip l = skip (t ++ ch :: r) →
    p.Reads G l (ch :: r) a

section CommaList

variable {L : List Char → α → Prop} {S : List Char → Prop} {w t : List Char} {as : List α}

theorem Padded.interleaved_before (hL : Padded L) (hw : IsBlank w)
    (h : Interleaved L S t as) : Interleaved L S (w ++ t) as := by
  cases h with
  | single h => exact .single (hL.before hw h)
  | cons h hm hrest =>
    rw [← List.append_assoc, ← List.append_assoc]
    exact .cons (hL.before hw h) hm hrest

theorem Padded.interleaved_after (hL : Padded L) (hw : IsBlank w)
    (h : Interleaved L S t as) : Interleaved L S (t ++ w) as := by
  induction h with
  | single h => exact .single (hL.after h hw)
  | cons h hm _ ih =>
    rw [List.append_assoc]
    exact .cons h hm ih

/-- Blanks around the commas belong to the items as well. -/
theorem Padded.commaList (hL : Padded L)
    (h : Interleaved L (fun m => ∃ _ : Text, ∃ w w', m = w ++ ',' :: w' ∧ IsBlank w ∧
      IsBlank w') t as) : CommaList L t as := by
  induction h with
  | single h => exact .single h
  | @cons t m rest a as h hm _ ih =>
    obtain ⟨_, w, w', rfl, hw, hw'⟩ := hm
    have hcons : CommaList L ((t ++ w) ++ [','] ++ (w' ++ rest)) (a :: as) :=
      .cons (hL.after h hw) rfl (hL.interleaved_before hw' ih)
    simpa using hcons

/-- A list of items is read up to the character that closes it. -/
theorem ReadsItems.itemsFrom {p : Parser (List Char) α} {close : Char}
    (hp : ReadsItems p G close L) (hblank : blanks.admits close = false) (hne : close ≠ ',')
    {T r : List Char} (h : CommaList L T as) (c : List Char) {l : List Char}
    (hl : skip l = skip (T ++ close :: r)) :
    ItemsFrom p (Grammar.comma.eval call) G c l (close :: r) as := by
  induction h generalizing c l with
  | single h =>
    refine .last (hp h (Or.inr rfl) hl) (refuses_comma call G ?_)
    intro m hm
    rw [skip_cons hblank] at hm
    exact hne (List.cons.inj hm).1
  | @cons t m rest a as h hm _ ih =>
    subst hm
    have hcomma : blanks.admits ',' = false := by decide
    rw [List.append_assoc, List.append_assoc, List.singleton_append] at hl
    have hread : (Grammar.comma.eval call : Parser (List Char) _).Reads G
        (',' :: (rest ++ close :: r)) (skip (rest ++ close :: r)) (Text.ofString ",") :=
      reads_comma call G (skip_cons hcomma _)
    refine .more (hp h (Or.inl rfl) hl) hread ?_ (ih _ (skip_skip _))
    -- the comma at least is gone
    have h₁ := length_skip_le (rest ++ close :: r)
    have h₂ := length_skip_le l
    rw [hl, skip_append (skip_cons hcomma _), List.length_append, List.length_cons] at h₂
    rw [extent_list, extent_list]
    omega

end CommaList

/-! ## Brackets -/

section Enclosed

variable {L : List Char → α → Prop} {p : Expr Primitive τ α} {opening closing : String}
  {op cl : Char} {r T : List Char} {as : List α}

theorem reads_enclosed (ho : opening.toList = [op]) (hc : closing.toList = [cl])
    (hblank : blanks.admits cl = false) (hne : cl ≠ ',')
    (hp : ReadsItems (p.eval call) G cl L) (h : CommaList L T as) :
    ((Grammar.enclosed opening closing p).eval call).Reads G (op :: (T ++ cl :: r)) r as := by
  obtain ⟨_, hb⟩ := reads_blank call G (T ++ cl :: r)
  have hitems := (hp.itemsFrom call G hblank hne h (skip (T ++ cl :: r))
    (skip_skip _)).reads
  obtain ⟨_, hb'⟩ := reads_blank call G (cl :: r)
  rw [skip_cons hblank] at hb'
  exact (reads_char call G ho _).preceded (hb.preceded
    (hitems.terminated (hb'.preceded (reads_char call G hc r))))

theorem reads_enclosed_nil (ho : opening.toList = [op]) (hc : closing.toList = [cl])
    (hblank : blanks.admits cl = false) (hp : (p.eval call).Refuses G (cl :: r))
    (hT : IsBlank T) :
    ((Grammar.enclosed opening closing p).eval call).Reads G (op :: (T ++ cl :: r)) r
      [] := by
  obtain ⟨_, hb⟩ := reads_blank call G (T ++ cl :: r)
  rw [skip_append_of_isBlank hT, skip_cons hblank] at hb
  have hitems : (Parser.separated (p.eval call) (Grammar.comma.eval call)).Reads G (cl :: r)
      (cl :: r) [] := ItemsFrom.reads (.stop hp)
  obtain ⟨_, hb'⟩ := reads_blank call G (cl :: r)
  rw [skip_cons hblank] at hb'
  exact (reads_char call G ho _).preceded (hb.preceded
    (hitems.terminated (hb'.preceded (reads_char call G hc r))))

theorem covers_enclosed (ho : opening.toList = [op]) (hc : closing.toList = [cl])
    (hL : Padded L) (hp : (p.eval call).Covers G L) :
    ((Grammar.enclosed opening closing p).eval call).Covers G fun t as =>
      ∃ T, t = op :: T ++ [cl] ∧ ((IsBlank T ∧ as = []) ∨ CommaList L T as) := by
  have hcomma : ∀ t (b : Text), (∃ w w', t = w ++ ',' :: w' ∧ IsBlank w ∧ IsBlank w') →
      t ≠ [] := by
    rintro _ _ ⟨w, w', rfl, _⟩ h
    exact absurd h (by simp)
  have h := Covers.preceded (covers_literal call G opening) (Covers.preceded
    (covers_blank call G) (Covers.terminated (Covers.separated hp (covers_comma call G) hcomma)
      (Covers.preceded (covers_blank call G) (covers_literal call G closing))))
  refine h.mono ?_
  rintro t as ⟨_, _, _, rfl, ⟨rfl, _⟩, w, _, _, rfl, hw, T, _, _, rfl, hT, w', _, _, rfl, hw',
    rfl, _⟩
  refine ⟨w ++ T ++ w', by simp [ho, hc], ?_⟩
  rcases hT with ⟨rfl, rfl⟩ | hT
  · refine Or.inl ⟨?_, rfl⟩
    rw [List.append_nil]
    exact isBlank_append.mpr ⟨hw, hw'⟩
  · exact Or.inr (hL.interleaved_after hw' (hL.interleaved_before hw (hL.commaList hT)))

end Enclosed

end Json
end Descent
