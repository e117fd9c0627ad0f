import Descent.Diagnostic.Report
import Descent.Json.Value

/-!
# Paths into a value

A path is a text of segments with dots between them, and every text is one: a dot at an
end or next to another dot makes an empty segment.  Following a path takes its segments in
order.  At an object a segment is a key; at an array it is a numeral that counts items
from zero; a value without parts has nothing to offer.

The numeral of an index may have leading zeros.  One that is too long to be read is
refused before it is compared with the number of items.
-/

namespace Descent
namespace Json

/-- Why a segment names nothing. -/
inductive PathError where
  /-- The container has no such part. -/
  | notFound (segment kind : String)
  /-- The value has no parts. -/
  | throughScalar (segment kind : String)
  /-- The index has too many digits to be read. -/
  | indexTooLong (error : Numeral.TooLong)
  deriving DecidableEq

namespace PathError

/-- The diagnostic of a look-up that failed; an index that could not be read has none. -/
def diagnostic? : PathError → Option Diagnostic
  | .notFound segment kind => some (.pathNotFound segment kind)
  | .throughScalar segment kind => some (.pathThroughScalar segment kind)
  | .indexTooLong _ => none

/-- The text of a look-up that failed. -/
def message : PathError → String
  | .notFound segment kind => (Diagnostic.pathNotFound segment kind).message
  | .throughScalar segment kind => (Diagnostic.pathThroughScalar segment kind).message
  | .indexTooLong error => error.message

end PathError

namespace Path

/-- The stretches between the dots of a text. -/
def splitDots : List Char → List (List Char)
  | [] => [[]]
  | ch :: rest =>
    if ch = '.' then [] :: splitDots rest
    else match splitDots rest with
      | [] => [[ch]]
      | segment :: segments => (ch :: segment) :: segments

/-- The segments of a path. -/
def segments (path : String) : List String :=
  (splitDots path.toList).map String.ofList

theorem splitDots_ne_nil (s : List Char) : splitDots s ≠ [] := by
  cases s with
  | nil => simp [splitDots]
  | cons ch rest =>
    unfold splitDots
    split
    · simp
    · split <;> simp

/-- A dot between two texts keeps their segments apart. -/
theorem splitDots_append_dot (s t : List Char) :
    splitDots (s ++ '.' :: t) = splitDots s ++ splitDots t := by
  induction s with
  | nil => simp [splitDots]
  | cons ch rest ih =>
    by_cases h : ch = '.'
    · simp [splitDots, h, ih]
    · obtain ⟨segment, segments, hs⟩ := List.exists_cons_of_ne_nil (splitDots_ne_nil rest)
      simp [splitDots, h, ih, hs]

end Path

namespace Value

/-- The part of a value that a single segment names. -/
def part (v : Value) (segment : String) : Except PathError Value :=
  match v with
  | .object members =>
    match Members.find? segment members with
    | some w => .ok w
    | none => .error (.notFound segment v.kind)
  | .array items =>
    if Numeral.isNumeral segment.toList then
      match Numeral.read segment.toList with
      | .error e => .error (.indexTooLong e)
      | .ok i =>
        match items[i]? with
        | some w => .ok w
        | none => .error (.notFound segment v.kind)
    else .error (.notFound segment v.kind)
  | _ => .error (.throughScalar segment v.kind)

/-- The value at the end of a list of segments. -/
def follow (v : Value) : List String → Except PathError Value
  | [] => .ok v
  | segment :: rest =>
    match v.part segment with
    | .ok w => w.follow rest
    | .error e => .error e

/-- The value at the end of a path. -/
def get (v : Value) (path : String) : Except PathError Value :=
  v.follow (Path.segments path)

@[simp] theorem follow_nil (v : Value) : v.follow [] = .ok v := rfl

theorem follow_append (v : Value) (a b : List String) :
    v.follow (a ++ b) = match v.follow a with
      | .ok w => w.follow b
      | .error e => .error e := by
  induction a generalizing v with
  | nil => rfl
  | cons segment rest ih =>
    simp only [List.cons_append, follow]
    cases v.part segment with
    | ok w => exact ih w
    | error e => rfl

end Value
end Json
end Descent
