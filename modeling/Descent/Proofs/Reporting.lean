import Descent.Proofs.Consumption
import Descent.Proofs.Positions
import Descent.Text.Parse

/-!
# Failures that can be reported

A failure is shown by a line and a span, and both can be refused: a line if it has to show
a character before the start of the text, a span if its numbers do not fit together.  For a
cursor inside its text or at its end neither happens, whatever the location is, since the
mark is kept between the cursor and the end (`Render.mark_bounds`).

The line and the span are made apart from each other, the line for a reader and the span
for a program.  They agree because both begin at the mark: the line starts with the line and
column of the span, and shows in brackets the characters that the span covers
(`Text.PointsTo`, `Text.pointsTo_mark`).

So a parser that yields an outcome yields an answer for the caller: its value, or a report.
By `Rules.parse_ahead` the failure of a grammar lies inside the text, so this holds of every
grammar over the primitives of text (`Rules.parse_reports`).
-/

namespace Descent

namespace Render

variable {c : Cursor} (location : Int)

/-- The mark lies between the cursor and the end of its text. -/
theorem mark_bounds (h : c.pos ≤ c.source.size) :
    c.pos ≤ mark c location ∧ mark c location ≤ c.source.size := by
  unfold mark
  simp only
  omega

/-! ### The window -/

/-- What the window shows before the mark `m`. -/
def shownBefore (source : Text) (m : Int) : String :=
  (if 0 < max (m - Limits.contextWidth) 0 then dots else "")
    ++ escape (source.slice (max (m - Limits.contextWidth) 0) m)

/-- What the window shows in brackets for the stretch that is marked. -/
def shownMark (marked : Text) : String := if marked.isEmpty then endSign else escape marked

/-- What the window shows after the mark `m`. -/
def shownAfter (source : Text) (m : Int) : String :=
  escape (source.slice (m + 1) (min (m + 1 + Limits.contextWidth) source.size))
    ++ (if min (m + 1 + Limits.contextWidth) source.size < source.size then dots else "")

/-- The stretch that begins at a place in the text and is one character long. -/
theorem slice_of_lt (source : Text) {m : Int} (h₀ : 0 ≤ m) (h₁ : m < source.size) :
    ∃ ch, source.at? m = some ch ∧ source.slice m (min (m + 1) source.size) = #[ch] := by
  obtain ⟨k, rfl⟩ := Int.eq_ofNat_of_zero_le h₀
  have hk : k < source.size := by omega
  refine ⟨source[k], ?_, ?_⟩
  · rw [Text.at?_natCast, Array.getElem?_eq_getElem hk]
  · rw [show min ((k : Int) + 1) source.size = ((k + 1 : Nat) : Int) by omega,
      Text.slice_natCast, Nat.min_eq_left (by omega), Nat.min_eq_left (by omega),
      ← Array.toList_inj, Array.toList_extract, List.extract_eq_take_drop,
      List.drop_eq_getElem_cons (by simpa using hk), Nat.add_sub_cancel_left]
    rfl

/-- At the end of the text there is no stretch. -/
theorem slice_size (source : Text) :
    source.slice source.size (min (source.size + 1) source.size) = #[] := by
  rw [show min ((source.size : Int) + 1) source.size = (source.size : Nat) by omega,
    Text.slice_natCast]
  simp

theorem window_eq (source : Text) {m : Int} (h₀ : 0 ≤ m) (h₁ : m ≤ source.size) :
    window source m = .ok (shownBefore source m ++ "["
      ++ shownMark (source.slice m (min (m + 1) source.size)) ++ "]"
      ++ shownAfter source m) := by
  unfold window
  simp only
  split
  · next hlt =>
    obtain ⟨ch, hat, hslice⟩ := slice_of_lt source h₀ hlt
    rw [hat, hslice]
    rfl
  · next hle =>
    obtain rfl : m = source.size := by omega
    rw [slice_size]
    rfl

/-- A character is shown by two characters at most, the end of the text by five. -/
theorem escape_singleton_ne_endSign (ch : Char) : escape #[ch] ≠ endSign := by
  intro h
  have hlen : (escapeChar ch).length ≤ 2 := by
    unfold escapeChar
    split <;> simp
  have hchars : (escapeChar ch).length = endSign.length := by
    rw [← h]
    simp [escape]
  rw [show endSign.length = 5 from rfl] at hchars
  omega

/-- The sign for the end stands in brackets exactly if the marked stretch is empty. -/
theorem shownMark_eq_endSign_iff (source : Text) {m : Int} (h₀ : 0 ≤ m)
    (h₁ : m ≤ source.size) :
    shownMark (source.slice m (min (m + 1) source.size)) = endSign
      ↔ m = min (m + 1) source.size := by
  rcases Int.lt_or_eq_of_le h₁ with hlt | rfl
  · obtain ⟨ch, _, hslice⟩ := slice_of_lt source h₀ hlt
    rw [hslice]
    exact ⟨fun h => absurd h (escape_singleton_ne_endSign ch), fun h => by omega⟩
  · rw [slice_size]
    exact ⟨fun _ => by omega, fun _ => rfl⟩

/-! ### The line and the span -/

/-- The line that shows a failure inside a text. -/
theorem render_eq (h₀ : 0 ≤ c.pos) (h₁ : c.pos ≤ c.source.size) :
    render c location = .ok (
      toString (Cursor.lineColumn { source := c.source, pos := mark c location }).1 ++ ":"
        ++ toString (Cursor.lineColumn { source := c.source, pos := mark c location }).2
        ++ ": " ++ (shownBefore c.source (mark c location) ++ "["
        ++ shownMark (c.source.slice (mark c location) (min (mark c location + 1) c.source.size))
        ++ "]" ++ shownAfter c.source (mark c location))) := by
  obtain ⟨hm₀, hm₁⟩ := mark_bounds location h₁
  unfold render
  simp only [window_eq c.source (Int.le_trans h₀ hm₀) hm₁]

/-- The span of a failure inside a text begins at the mark, and is one character long or
ends with the text. -/
theorem exists_locate (h₀ : 0 ≤ c.pos) (h₁ : c.pos ≤ c.source.size) :
    ∃ span : Span, Text.locate c location = .ok span ∧ (span.start : Int) = mark c location ∧
      (span.stop : Int) = min (mark c location + 1) c.source.size ∧
      span.line = (Cursor.lineColumn { source := c.source, pos := mark c location }).1 ∧
      (span.column : Int)
        = (Cursor.lineColumn { source := c.source, pos := mark c location }).2 := by
  obtain ⟨hm₀, hm₁⟩ := mark_bounds location h₁
  have hm : 0 ≤ mark c location := Int.le_trans h₀ hm₀
  obtain ⟨hline, hcolumn⟩ :=
    Cursor.one_le_lineColumn (c := { source := c.source, pos := mark c location }) hm hm₁
  unfold Text.locate locate
  simp only
  rw [Span.ofInts_eq_ok hm (by omega) (Int.ofNat_le.mpr hline) hcolumn]
  refine ⟨_, rfl, ?_, ?_, ?_, ?_⟩
  · exact Int.toNat_of_nonneg hm
  · exact Int.toNat_of_nonneg (by omega)
  · exact Int.toNat_natCast _
  · exact Int.toNat_of_nonneg (by omega)

end Render

namespace Text

variable {α : Type} {p : Parser Cursor α} {c : Cursor} {s s' : RunState}

/-- A success is the value for the caller. -/
theorem parse_of_success {r : Cursor} {a : α} (h : p c s = .ok (.success r a) s') :
    Text.parse p c s = .ok (.ok a) s' := by
  show EStateM.bind (p c) _ s = _
  unfold EStateM.bind
  rw [h]
  rfl

/-- What a caller is told of a failure: the span of the marked character, and the line that
shows where it is, what stands before it, the character, and what stands after it. -/
def messageOf (source : Text) (span : Span) : String :=
  toString span.line ++ ":" ++ toString span.column ++ ": "
    ++ (Render.shownBefore source span.start ++ "["
    ++ Render.shownMark (source.slice span.start span.stop) ++ "]"
    ++ Render.shownAfter source span.start)

/-- A failure on `c` at `location` is shown at the place `m`: it is the mark, the span begins
there with its line and column, and the line is the one for that span. -/
structure PointsTo (c : Cursor) (location m : Int) : Prop where
  mark_eq : Render.mark c location = m
  shown : ∃ span : Span, locate c location = .ok span ∧
    Render.render c location = .ok (messageOf c.source span) ∧
    (span.start : Int) = m ∧ (span.stop : Int) = min (m + 1) c.source.size ∧
    Cursor.lineColumn { source := c.source, pos := m } = (span.line, (span.column : Int))

/-- A failure inside a text is shown at the mark. -/
theorem pointsTo_mark {c : Cursor} (location : Int) (h₀ : 0 ≤ c.pos)
    (h₁ : c.pos ≤ c.source.size) : PointsTo c location (Render.mark c location) where
  mark_eq := rfl
  shown := by
    obtain ⟨span, hlocate, hstart, hstop, hline, hcolumn⟩ := Render.exists_locate location h₀ h₁
    refine ⟨span, hlocate, ?_, hstart, hstop, Prod.ext hline.symm hcolumn.symm⟩
    rw [Render.render_eq location h₀ h₁, ← hline, ← hcolumn, ← hstop, ← hstart]
    rfl

/-- **A failure inside a text is a report for the caller.** -/
theorem parse_of_failure {j : Cursor} {l : Int} (h : p c s = .ok (.failure j l) s')
    (h₀ : 0 ≤ j.pos) (h₁ : j.pos ≤ j.source.size) :
    ∃ span : Span, (span.start : Int) = Render.mark j l ∧
      span.stop = min (span.start + 1) j.source.size ∧
      Text.parse p c s = .ok
        (.error { report := .ofDiagnostic (.parseFailed (messageOf j.source span) (some span)),
                  input := some j, location := l })
        (s'.record (.parseFailed l (messageOf j.source span))) := by
  obtain ⟨span, hlocate, hrender, hstart, hstop, -⟩ := (pointsTo_mark l h₀ h₁).shown
  refine ⟨span, hstart, by omega, ?_⟩
  show EStateM.bind (p c) _ s = _
  unfold EStateM.bind
  rw [h]
  show (Except.error <$> Parser.reportFailure located j l) s' = _
  unfold Parser.reportFailure
  simp only [located, hrender, hlocate]
  rfl

end Text

/-- **What a grammar answers can be reported.**  From a cursor that stands inside its text or
at its end, an outcome of a grammar becomes an answer for the caller.  A success is its
value.  A failure is a report that holds its input and its location as they are, and a span
that begins between the cursor and the end of the text and covers the one character there,
if there is one.  The message starts with the line and column of the span and shows its
characters in brackets, escaped; the sign for the end of the text stands there exactly if
the span is empty. -/
theorem Rules.parse_reports {ρ : Type} {τ : ρ → Type} (rules : Rules Primitive τ) {α : Type}
    (e : Expr Primitive τ α) (calls : Nat) (c : Cursor) (h₀ : 0 ≤ c.pos)
    (h₁ : c.pos ≤ c.source.size) {s s' : RunState} {o : Outcome Cursor α}
    (h : rules.parse e calls c s = .ok o s') :
    match o with
    | .success _ a => Text.parse (rules.parse e calls) c s = .ok (.ok a) s'
    | .failure j l => ∃ (error : ParseFailed Cursor) (span : Span) (marked : String),
        Text.parse (rules.parse e calls) c s
          = .ok (.error error) (s'.record (.parseFailed l error.report.message)) ∧
        error.input = some j ∧ error.location = l ∧
        error.report.diagnostic = some (.parseFailed error.report.message (some span)) ∧
        c.pos ≤ span.start ∧ span.start ≤ c.source.size ∧
        span.stop = min (span.start + 1) c.source.size ∧
        error.report.message = toString span.line ++ ":" ++ toString span.column ++ ": "
          ++ (Render.shownBefore c.source span.start ++ "[" ++ marked ++ "]"
          ++ Render.shownAfter c.source span.start) ∧
        (span.start < span.stop →
          marked = Render.escape (c.source.slice span.start span.stop)) ∧
        (marked = Render.endSign ↔ span.start = span.stop) := by
  cases o with
  | success r a => exact Text.parse_of_success h
  | failure j l =>
    obtain ⟨hsource, hpos, hsize⟩ := (rules.parse_ahead e calls c h₀ h₁ s).2 j l s' h
    rw [← hsource] at hsize
    obtain ⟨span, hstart, hstop, hparse⟩ :=
      Text.parse_of_failure h (Int.le_trans h₀ hpos) hsize
    obtain ⟨hmark, hmark'⟩ := Render.mark_bounds l hsize
    rw [← hstart] at hmark hmark'
    have hsign := Render.shownMark_eq_endSign_iff j.source (Int.natCast_nonneg span.start)
      hmark'
    rw [show min ((span.start : Int) + 1) j.source.size = span.stop by omega] at hsign
    rw [hsource] at hstop hparse hmark' hsign
    refine ⟨_, span, _, hparse, rfl, rfl, rfl, Int.le_trans hpos hmark, by omega, hstop, rfl,
      fun hlt => ?_, by rw [hsign]; omega⟩
    -- a stretch that is not empty is not shown by the sign for the end
    have hne : c.source.slice span.start span.stop ≠ #[] := by
      intro hempty
      rw [hempty] at hsign
      have := hsign.mp rfl
      omega
    rw [Render.shownMark, if_neg (by simpa using hne)]

/-- On `1,2,]` the report points at the last comma, where the closing bracket is missing. -/
theorem bracketedDigits_reports :
    ∃ (error : ParseFailed Cursor) (span : Span) (s' : RunState),
      Text.parse (bracketedDigits.parse (.ref ()) 1) { source := #['1', ',', '2', ',', ']'] } {}
        = .ok (.error error) s' ∧
      error.location = 1 ∧ error.report.message = "1:4: 1,2[,]]" ∧
      error.report.diagnostic = some (.parseFailed "1:4: 1,2[,]]" (some span)) ∧
      span.stop = min (span.start + 1) 5 := by
  obtain ⟨error, span, _, hparse, _, hlocation, hdiagnostic, _, _, hstop, _⟩ :=
    bracketedDigits.parse_reports (.ref ()) 1 { source := #['1', ',', '2', ',', ']'] }
      (by decide) (by decide) (s := {}) rfl
  have hmessage : error.report.message = "1:4: 1,2[,]]" := by
    have h := (EStateM.Result.ok.inj hparse).1
    rw [← Except.error.inj h]
    rfl
  rw [hmessage] at hdiagnostic
  exact ⟨error, span, _, hparse, hlocation, hmessage, hdiagnostic, hstop⟩

end Descent
