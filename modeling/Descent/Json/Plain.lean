import Descent.Json.Value

/-!
# Plain data

The plain form of a value forgets that it came from JSON: strings, numbers and truth
values stand for themselves, null is nothing, arrays are lists and objects are tables in
the order of their members.  A bare value has no plain form, and so has nothing that
contains one.
-/

namespace Descent
namespace Json

/-- Data without the names of kinds. -/
inductive Plain where
  | nothing
  | bool (b : Bool)
  | string (s : String)
  | number (d : Decimal)
  | list (items : List Plain)
  | table (entries : List (String × Plain))

namespace Value

mutual

/-- The plain form of a value, if it has one. -/
def toPlain? : Value → Option Plain
  | .string s => some (.string s)
  | .number d => some (.number d)
  | .bool b => some (.bool b)
  | .null => some .nothing
  | .array items => (toPlainItems? items).map .list
  | .object members => (toPlainMembers? members).map .table
  | .bare _ => none

/-- The plain forms of the items of an array. -/
def toPlainItems? : List Value → Option (List Plain)
  | [] => some []
  | v :: rest =>
    match v.toPlain?, toPlainItems? rest with
    | some p, some ps => some (p :: ps)
    | _, _ => none

/-- The plain forms of the members of an object. -/
def toPlainMembers? : List (String × Value) → Option (List (String × Plain))
  | [] => some []
  | (key, v) :: rest =>
    match v.toPlain?, toPlainMembers? rest with
    | some p, some ps => some ((key, p) :: ps)
    | _, _ => none

end

end Value
end Json
end Descent
