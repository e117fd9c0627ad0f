import Descent.Proofs.Reporting
import Mathlib.Data.List.TakeDrop

/-!
# The window of a rendered failure

A rendered failure cuts its text up at the mark: some characters are left out at the beginning,
some are shown before the mark, then comes the marked one, unless the mark stands at the end,
then some that are shown after it, and the rest is left out.  The five pieces in their order are
the text (`Render.Cut`), and the line shows the three in the middle (`Render.Cut.shown`): so
what is seen is one stretch of the source in which nothing is dropped or repeated.

The line computes its two sides, and the dots that stand for what is left out, from bounds that
are moved to the ends of the text.  That they are the pieces of the cut is shown for one side at
a time (`Render.shownBefore_natCast`, `Render.shownAfter_natCast`).

## What the line does to control characters

Line feeds, carriage returns and tabs are escaped, in each of the three pieces, and no other
character is.  The rest of the line, its numbers, brackets and signs, is printable.  So the
control characters of a line are those of its window that are none of the three
(`Render.controls_render`).
-/

namespace Descent

namespace Render

/-! ## Cutting a text up -/

/-- A text that is cut up at the place `m` into what is left out before the window, the window
with the mark in the middle of it, and what is left out after the window.  On either side of the
mark the window holds as many characters as it is wide, or all that there are. -/
structure Cut (source : Text) (m : Int) where
  earlier : List Char
  before : List Char
  marked : Option Char
  after : List Char
  later : List Char
  pieces_eq : earlier ++ before ++ marked.toList ++ after ++ later = source.toList
  mark_eq : ((earlier ++ before).length : Int) = m
  marked_eq_none_iff : marked = none ↔ m = source.size
  length_before : before.length = min Limits.contextWidth (earlier ++ before).length
  length_after : after.length = min Limits.contextWidth (after ++ later).length

namespace Cut

variable {source : Text} {m : Int} (cut : Cut source m)

/-- The stretch of the text that is shown. -/
def window : List Char := cut.before ++ cut.marked.toList ++ cut.after

/-- What stands in brackets. -/
def shownMark : String :=
  match cut.marked with
  | some ch => escape #[ch]
  | none => endSign

/-- What a line shows of a text that is cut up: the pieces of the window, escaped, the middle one
in brackets, and dots on a side where something is left out. -/
def shown : String :=
  (if cut.earlier.isEmpty then "" else dots) ++ escape cut.before.toArray
    ++ "[" ++ cut.shownMark ++ "]"
    ++ (escape cut.after.toArray ++ if cut.later.isEmpty then "" else dots)

/-- The sign for the end stands in brackets exactly if the mark is at the end. -/
theorem shownMark_eq_endSign_iff : cut.shownMark = endSign ↔ m = source.size := by
  rw [← cut.marked_eq_none_iff, shownMark]
  cases cut.marked with
  | none => exact ⟨fun _ => rfl, fun _ => rfl⟩
  | some ch => exact ⟨fun h => absurd h (escape_singleton_ne_endSign ch), fun h => nomatch h⟩

end Cut

section Places

variable (source : Text) (k : Nat)

/-- What is left out and what is shown before a place is what stands before it. -/
theorem take_append_take_drop : source.toList.take (k - Limits.contextWidth)
    ++ (source.toList.drop (k - Limits.contextWidth)).take (k - (k - Limits.contextWidth))
      = source.toList.take k := by
  rw [← List.take_add, Nat.add_sub_cancel' (Nat.sub_le _ _)]

/-- The cut of a text at one of its places. -/
def cutAt (h : k ≤ source.size) : Cut source k where
  earlier := source.toList.take (k - Limits.contextWidth)
  before := (source.toList.drop (k - Limits.contextWidth)).take (k - (k - Limits.contextWidth))
  marked := source[k]?
  after := (source.toList.drop (k + 1)).take Limits.contextWidth
  later := source.toList.drop (k + 1 + Limits.contextWidth)
  pieces_eq := by
    rw [take_append_take_drop, List.append_assoc, List.append_assoc, List.drop_take_append_drop,
      ← Array.getElem?_toList, ← List.drop_eq_getElem?_toList_append, List.take_append_drop]
  mark_eq := by
    rw [take_append_take_drop, List.length_take_of_le (by simpa using h)]
  marked_eq_none_iff := by
    rw [Array.getElem?_eq_none_iff]
    omega
  length_before := by
    rw [take_append_take_drop]
    simp only [List.length_drop, List.length_take, Array.length_toList]
    omega
  length_after := by
    rw [List.drop_take_append_drop, List.length_take]

/-- The line shows before a mark what the cut has before it. -/
theorem shownBefore_natCast (h : k ≤ source.size) : shownBefore source k
    = (if (cutAt source k h).earlier.isEmpty then "" else dots)
      ++ escape (cutAt source k h).before.toArray := by
  have hstart : max ((k : Int) - Limits.contextWidth) 0 = (k - Limits.contextWidth : Nat) := by
    omega
  have hslice : source.slice (k - Limits.contextWidth : Nat) k
      = (cutAt source k h).before.toArray := by
    rw [Text.slice_natCast, Nat.min_eq_left (by omega), Nat.min_eq_left h, ← Array.toList_inj,
      Array.toList_extract, List.extract_eq_take_drop]
    rfl
  have hdots : 0 < ((k - Limits.contextWidth : Nat) : Int)
      ↔ ¬ (cutAt source k h).earlier.isEmpty = true := by
    rw [List.isEmpty_iff, ← List.length_eq_zero_iff, cutAt, List.length_take,
      Array.length_toList]
    omega
  rw [shownBefore, hstart, hslice]
  simp only [hdots, ite_not]

/-- The line shows after a mark what the cut has after it. -/
theorem shownAfter_natCast (h : k ≤ source.size) : shownAfter source k
    = escape (cutAt source k h).after.toArray
      ++ if (cutAt source k h).later.isEmpty then "" else dots := by
  have hstop : min ((k : Int) + 1 + Limits.contextWidth) source.size
      = (min (k + 1 + Limits.contextWidth) source.size : Nat) := by omega
  have hslice : source.slice ((k : Int) + 1) (min (k + 1 + Limits.contextWidth) source.size : Nat)
      = (cutAt source k h).after.toArray := by
    rw [show (k : Int) + 1 = (k + 1 : Nat) by omega, Text.slice_natCast, ← Array.toList_inj,
      Array.toList_extract, List.extract_eq_take_drop, cutAt]
    rcases Nat.lt_or_eq_of_le h with hlt | rfl
    · rw [Nat.min_eq_left hlt, List.take_eq_take_iff, List.length_drop, Array.length_toList]
      omega
    · simp
  have hdots : ((min (k + 1 + Limits.contextWidth) source.size : Nat) : Int) < source.size
      ↔ ¬ (cutAt source k h).later.isEmpty = true := by
    rw [List.isEmpty_iff, ← List.length_eq_zero_iff, cutAt, List.length_drop,
      Array.length_toList]
    omega
  rw [shownAfter, hstop, hslice]
  simp only [hdots, ite_not]

/-- The line shows at a mark what the cut has there. -/
theorem shownMark_natCast (h : k ≤ source.size) :
    shownMark (source.slice k (min ((k : Int) + 1) source.size))
      = (cutAt source k h).shownMark := by
  rcases Nat.lt_or_eq_of_le h with hlt | rfl
  · obtain ⟨ch, hch, hslice⟩ :=
      slice_of_lt source (Int.natCast_nonneg k) (Int.ofNat_lt.mpr hlt)
    have hmarked : (cutAt source k h).marked = some ch := by rwa [Text.at?_natCast] at hch
    rw [hslice, Cut.shownMark, hmarked]
    rfl
  · have hmarked : (cutAt source source.size h).marked = none :=
      Array.getElem?_eq_none (Nat.le_refl _)
    rw [slice_size, Cut.shownMark, hmarked]
    rfl

end Places

/-- What a line starts with: the line and column of the mark. -/
def header (source : Text) (m : Int) : String :=
  toString (Cursor.lineColumn { source := source, pos := m }).1 ++ ":"
    ++ toString (Cursor.lineColumn { source := source, pos := m }).2 ++ ": "

/-- The line of a failure inside a text shows the text cut up at the mark. -/
theorem exists_render_eq_shown {c : Cursor} (location : Int) (h₀ : 0 ≤ c.pos)
    (h₁ : c.pos ≤ c.source.size) :
    ∃ cut : Cut c.source (mark c location),
      render c location = .ok (header c.source (mark c location) ++ cut.shown) := by
  obtain ⟨hm₀, hm₁⟩ := mark_bounds location h₁
  rw [render_eq location h₀ h₁]
  generalize mark c location = m at hm₀ hm₁
  obtain ⟨k, rfl⟩ := Int.eq_ofNat_of_zero_le (Int.le_trans h₀ hm₀)
  have hk : k ≤ c.source.size := Int.ofNat_le.mp hm₁
  refine ⟨cutAt c.source k hk, ?_⟩
  rw [shownBefore_natCast c.source k hk, shownMark_natCast c.source k hk,
    shownAfter_natCast c.source k hk]
  rfl

/-- **The line shows one stretch of the text.**  For a failure inside a text or at its end, the
line starts with the line and column of the mark and goes on with the window of the text that is
cut up there: the characters before the mark, the marked one in brackets and those after it,
escaped and with dots on a side where some are left out.  The sign for the end stands in the
brackets exactly if the mark is at the end. -/
theorem render_shows_stretch (c : Cursor) (location : Int) (h₀ : 0 ≤ c.pos)
    (h₁ : c.pos ≤ c.source.size) :
    ∃ cut : Cut c.source (mark c location),
      render c location = .ok (header c.source (mark c location) ++ cut.shown) ∧
      (cut.shownMark = endSign ↔ mark c location = c.source.size) := by
  obtain ⟨cut, hrender⟩ := exists_render_eq_shown location h₀ h₁
  exact ⟨cut, hrender, cut.shownMark_eq_endSign_iff⟩

/-- Twenty-one letters, a line feed and twenty letters. -/
def twoLines : Text := ('a' :: List.replicate 20 'b' ++ '\n' :: List.replicate 20 'c').toArray

/-- Around the line feed the first letter is left out, and the last is not. -/
theorem twoLines_shows_stretch :
    ∃ cut : Cut twoLines 21,
      render { source := twoLines } 22 = .ok ("1:22: " ++ cut.shown) ∧
      cut.shown = "...bbbbbbbbbbbbbbbbbbbb[\\n]cccccccccccccccccccc" ∧ cut.shownMark ≠ endSign := by
  obtain ⟨cut, hrender, hmark⟩ :=
    render_shows_stretch { source := twoLines } 22 (by decide) (by decide)
  have hline : render { source := twoLines } 22 = .ok ("1:22: " ++ cut.shown) := hrender
  refine ⟨cut, hline, ?_, fun h => absurd (hmark.mp h) (by decide)⟩
  have hshown : render { source := twoLines } 22
      = .ok ("1:22: " ++ "...bbbbbbbbbbbbbbbbbbbb[\\n]cccccccccccccccccccc") := by rfl
  rw [hline] at hshown
  exact (String.append_right_inj _).mp (Except.ok.inj hshown)

/-! ## Control characters -/

/-- The characters that do not show but act on what shows them: those up to U+001F, and those from
U+007F to U+009F. -/
def isControl (ch : Char) : Bool := ch.toNat ≤ 0x1f || (0x7f ≤ ch.toNat && ch.toNat ≤ 0x9f)

/-- The characters that a line shows escaped. -/
def isEscaped (ch : Char) : Bool := ['\n', '\r', '\t'].contains ch

theorem isEscaped_iff {ch : Char} :
    isEscaped ch = true ↔ ch = '\n' ∨ ch = '\r' ∨ ch = '\t' := by simp [isEscaped]

/-- The control characters of a string. -/
def controls (s : String) : List Char := s.toList.filter isControl

/-- The control characters of a stretch of text that a line does not escape. -/
def unescaped (chars : List Char) : List Char :=
  chars.filter fun ch => isControl ch && !isEscaped ch

theorem controls_append (s t : String) : controls (s ++ t) = controls s ++ controls t := by
  rw [controls, String.toList_append, List.filter_append]
  rfl

theorem unescaped_append (chars more : List Char) :
    unescaped (chars ++ more) = unescaped chars ++ unescaped more := List.filter_append _ _

theorem escapeChar_of_not_isEscaped {ch : Char} (h : ¬ isEscaped ch = true) :
    escapeChar ch = [ch] := by
  rw [isEscaped_iff, not_or, not_or] at h
  rw [escapeChar_eq, if_neg h.1, if_neg h.2.1, if_neg h.2.2]

/-- A character that is shown leaves a control character only if it is one and is not escaped. -/
theorem filter_isControl_escapeChar (ch : Char) :
    (escapeChar ch).filter isControl = unescaped [ch] := by
  by_cases h : isEscaped ch = true
  · obtain rfl | rfl | rfl := isEscaped_iff.mp h
    · rfl
    · rfl
    · rfl
  · rw [escapeChar_of_not_isEscaped h, unescaped, List.filter_singleton, List.filter_singleton]
    simp [h]

theorem controls_escape (chars : List Char) :
    controls (escape chars.toArray) = unescaped chars := by
  rw [controls, escape, String.toList_ofList]
  induction chars with
  | nil => rfl
  | cons ch chars ih =>
    rw [List.flatMap_cons, List.filter_append, filter_isControl_escapeChar, ih,
      ← unescaped_append]
    rfl

/-- Numerals hold no control characters. -/
theorem controls_toString (n : Nat) : controls (toString n) = [] := by
  rw [controls, Nat.toString_eq_repr, Nat.toList_repr, List.filter_eq_nil_iff]
  intro ch hch
  obtain ⟨hlow, hhigh⟩ : 48 ≤ ch.toNat ∧ ch.toNat ≤ 57 :=
    Char.isDigit_iff_toNat.mp (Nat.isDigit_of_mem_toDigits (by decide) (by decide) hch)
  simp only [isControl, Bool.or_eq_true, Bool.and_eq_true, decide_eq_true_eq]
  omega

/-- The line and column hold no control characters. -/
theorem controls_header {source : Text} {m : Int} (h₀ : 0 ≤ m) (h₁ : m ≤ source.size) :
    controls (header source m) = [] := by
  obtain ⟨k, rfl⟩ := Int.eq_ofNat_of_zero_le h₀
  have hcolumn : ∀ n : Nat, toString (n : Int) = toString n := fun _ => rfl
  rw [header, Cursor.lineColumn_eq_positionAfter (Int.ofNat_le.mp h₁)]
  simp only [controls_append, hcolumn, controls_toString]
  rfl

theorem controls_dots (b : Bool) : controls (if b then "" else dots) = [] := by
  cases b <;> rfl

/-- What a cut shows holds the control characters of its window that are not escaped. -/
theorem Cut.controls_shown {source : Text} {m : Int} (cut : Cut source m) :
    controls cut.shown = unescaped cut.window := by
  have hmark : controls cut.shownMark = unescaped cut.marked.toList := by
    rw [shownMark]
    cases cut.marked with
    | none => rfl
    | some ch => exact controls_escape [ch]
  have hopen : controls "[" = [] := rfl
  have hclose : controls "]" = [] := rfl
  simp only [shown, window, controls_append, controls_dots, controls_escape, hmark, hopen, hclose,
    unescaped_append, List.nil_append, List.append_nil]

/-- **A line escapes the line feeds, carriage returns and tabs of its window and nothing else.**
The control characters of the line that shows a failure are those of the window that are none of
the three.  So the line has no control character exactly if the window has no other one. -/
theorem controls_render (c : Cursor) (location : Int) (h₀ : 0 ≤ c.pos)
    (h₁ : c.pos ≤ c.source.size) :
    ∃ (cut : Cut c.source (mark c location)) (line : String),
      render c location = .ok line ∧ line = header c.source (mark c location) ++ cut.shown ∧
      line.toList.filter isControl
        = cut.window.filter (fun ch => isControl ch && !isEscaped ch) ∧
      ((∀ ch ∈ line.toList, isControl ch = false) ↔
        ∀ ch ∈ cut.window, isControl ch = true → ch = '\n' ∨ ch = '\r' ∨ ch = '\t') := by
  obtain ⟨hm₀, hm₁⟩ := mark_bounds location h₁
  obtain ⟨cut, hrender⟩ := exists_render_eq_shown location h₀ h₁
  have hcontrols : controls (header c.source (mark c location) ++ cut.shown)
      = unescaped cut.window := by
    rw [controls_append, controls_header (Int.le_trans h₀ hm₀) hm₁, cut.controls_shown,
      List.nil_append]
  refine ⟨cut, _, hrender, rfl, hcontrols, ?_⟩
  calc (∀ ch ∈ (header c.source (mark c location) ++ cut.shown).toList, isControl ch = false)
      ↔ controls (header c.source (mark c location) ++ cut.shown) = [] := by
        simp only [controls, List.filter_eq_nil_iff, Bool.not_eq_true]
    _ ↔ unescaped cut.window = [] := by rw [hcontrols]
    _ ↔ ∀ ch ∈ cut.window, isControl ch = true → ch = '\n' ∨ ch = '\r' ∨ ch = '\t' := by
        simp only [unescaped, List.filter_eq_nil_iff, Bool.and_eq_true, Bool.not_eq_true',
          not_and, Bool.not_eq_false, isEscaped_iff]

/-- A tab and the character U+001B. -/
def tabAndControl : Text := #['\t', Char.ofNat 0x1b]

/-- The line that marks the tab shows it escaped, and the other character as it is. -/
theorem tabAndControl_controls_render :
    ∃ (cut : Cut tabAndControl 0) (line : String),
      render { source := tabAndControl } 1 = .ok line ∧
      line.toList.filter isControl = [Char.ofNat 0x1b] ∧
      cut.window.filter (fun ch => isControl ch && !isEscaped ch) = [Char.ofNat 0x1b] := by
  obtain ⟨cut, line, hrender, -, hfilter, -⟩ :=
    controls_render { source := tabAndControl } 1 (by decide) (by decide)
  have hline : render { source := tabAndControl } 1
      = .ok (String.ofList ("1:1: [\\t]".toList ++ [Char.ofNat 0x1b])) := by rfl
  obtain rfl := Except.ok.inj (hrender.symm.trans hline)
  have hcontrols : (String.ofList
      ("1:1: [\\t]".toList ++ [Char.ofNat 0x1b])).toList.filter isControl
        = [Char.ofNat 0x1b] := by decide
  exact ⟨cut, _, hrender, hcontrols, hfilter.symm.trans hcontrols⟩

/-- The line that marks the character U+001B between two letters holds that character itself. -/
theorem controlCharacter_not_escaped :
    ∃ line, render { source := #['a', Char.ofNat 0x1b, 'b'] } 2 = .ok line ∧
      ∃ ch ∈ line.toList, isControl ch = true :=
  ⟨_, rfl, Char.ofNat 0x1b, by decide, rfl⟩

end Render
end Descent
