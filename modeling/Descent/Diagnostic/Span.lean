/-!
# Spans

A span names a stretch of a source text together with the line and column where it
begins.  Its offsets count from zero and its line and column from one, and the stretch
does not run backward; these three facts are fields of the type.  Numbers that come from
outside go through `Span.ofInts`, which refuses the first of them that breaks a fact, in
the order start, stop, line, column.
-/

namespace Descent

/-- A stretch `start ≤ i < stop` of a source text, and the position where it begins. -/
structure Span where
  start : Nat
  stop : Nat
  line : Nat
  column : Nat
  start_le_stop : start ≤ stop
  one_le_line : 1 ≤ line
  one_le_column : 1 ≤ column
  deriving DecidableEq

namespace Span

/-- Why four numbers are not a span. -/
inductive Error where
  | negativeStart (start : Int)
  | stopBeforeStart (start stop : Int)
  | lineBelowOne (line : Int)
  | columnBelowOne (column : Int)
  deriving DecidableEq

/-- The text of a refusal. -/
def Error.message : Error → String
  | .negativeStart start => "SourceSpan.start must be >= 0, got " ++ toString start
  | .stopBeforeStart start stop =>
      "SourceSpan.end (" ++ toString stop ++ ") must be >= start (" ++ toString start ++ ")"
  | .lineBelowOne line =>
      "SourceSpan.line must be >= 1 (1-indexed), got " ++ toString line
  | .columnBelowOne column =>
      "SourceSpan.column must be >= 1 (1-indexed), got " ++ toString column

/-- The span with the given numbers, or the first of its facts that they break. -/
def ofInts (start stop line column : Int) : Except Error Span :=
  if hs : start < 0 then .error (.negativeStart start)
  else if he : stop < start then .error (.stopBeforeStart start stop)
  else if hl : line < 1 then .error (.lineBelowOne line)
  else if hc : column < 1 then .error (.columnBelowOne column)
  else .ok
    { start := start.toNat, stop := stop.toNat, line := line.toNat, column := column.toNat
      start_le_stop := by omega, one_le_line := by omega, one_le_column := by omega }

/-- Numbers that respect every fact make a span. -/
theorem ofInts_eq_ok {start stop line column : Int} (hs : 0 ≤ start) (he : start ≤ stop)
    (hl : 1 ≤ line) (hc : 1 ≤ column) :
    ofInts start stop line column = .ok
      { start := start.toNat, stop := stop.toNat, line := line.toNat
        column := column.toNat, start_le_stop := by omega, one_le_line := by omega
        one_le_column := by omega } := by
  have hs : ¬ start < 0 := by omega
  have he : ¬ stop < start := by omega
  have hl : ¬ line < 1 := by omega
  have hc : ¬ column < 1 := by omega
  simp [ofInts, hs, he, hl, hc]

/-- The numbers of a span give that span back. -/
@[simp] theorem ofInts_self (s : Span) : ofInts s.start s.stop s.line s.column = .ok s := by
  have h₁ := s.start_le_stop
  have h₂ := s.one_le_line
  have h₃ := s.one_le_column
  rw [ofInts_eq_ok (by omega) (by omega) (by omega) (by omega)]
  simp

end Span
end Descent
