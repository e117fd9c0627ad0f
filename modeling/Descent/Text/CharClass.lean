import Descent.Text.Quoted

/-!
# Character classes

A class says which characters a run may hold: those of a list, those outside a list, or
those of an inclusive range of code points.  Classes are written down as texts, and a
text that stands for a character must be one character long; the checks and the wording
of their refusals are here.
-/

namespace Descent

/-- A set of characters. -/
inductive CharClass where
  | anyOf (members : List Char)
  | noneOf (members : List Char)
  | between (low high : Char)
  deriving DecidableEq

namespace CharClass

/-- Whether a character belongs to a class. -/
def admits : CharClass → Char → Bool
  | .anyOf members, ch => members.contains ch
  | .noneOf members, ch => !members.contains ch
  | .between low high, ch => low ≤ ch && ch ≤ high

@[simp] theorem admits_anyOf (members : List Char) (ch : Char) :
    admits (.anyOf members) ch = true ↔ ch ∈ members := by simp [admits]

@[simp] theorem admits_noneOf (members : List Char) (ch : Char) :
    admits (.noneOf members) ch = true ↔ ch ∉ members := by simp [admits]

@[simp] theorem admits_between (low high ch : Char) :
    admits (.between low high) ch = true ↔ low ≤ ch ∧ ch ≤ high := by simp [admits]

/-- Why texts do not describe a class. -/
inductive Error where
  /-- A member of a set is not one character. -/
  | notSingle (member : String)
  /-- A bound of a range is not one character. -/
  | boundsNotSingle (low high : String)
  /-- The bounds of a range are in the wrong order. -/
  | boundsReversed (low high : String)
  deriving DecidableEq

/-- The text of a refusal. -/
def Error.message [Printable.Database] : Error → String
  | .notSingle member => "Expected single characters, got " ++ Quoted.quote member
  | .boundsNotSingle low high =>
      "char_range() bounds must be single characters, got " ++ Quoted.quote low ++ " and "
        ++ Quoted.quote high
  | .boundsReversed low high =>
      "char_range() lower bound " ++ Quoted.quote low ++ " is above upper bound "
        ++ Quoted.quote high

/-- The character that a text of length one stands for. -/
def single? (s : String) : Option Char :=
  match s.toList with
  | [ch] => some ch
  | _ => none

/-- The characters that texts of length one stand for, or the first text that is not of
length one. -/
def members : List String → Except Error (List Char)
  | [] => .ok []
  | s :: rest =>
    match single? s with
    | none => .error (.notSingle s)
    | some ch => (members rest).map (ch :: ·)

/-- The range between two texts of length one. -/
def range (low high : String) : Except Error CharClass :=
  match single? low, single? high with
  | some lo, some hi =>
    if hi < lo then .error (.boundsReversed low high) else .ok (.between lo hi)
  | _, _ => .error (.boundsNotSingle low high)

end CharClass
end Descent
