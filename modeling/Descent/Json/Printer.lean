import Descent.Json.Value
import Descent.Text.Slice

/-!
# Writing values

A value is written in the dialect that the grammar reads: strings between quotes as they
are, numbers in positional notation, parts in order with a comma and a blank between them,
and a colon and a blank between a key and its value.  Since strings have no escapes, a
string that holds a quote does not read back.  A bare value is written as nothing.
-/

namespace Descent
namespace Json
namespace Value

/-- A string between quotes. -/
def quoted (s : String) : List Char := '"' :: s.toList ++ ['"']

/-- What stands between two parts. -/
def separator : List Char := [',', ' ']

mutual

/-- The text of a value. -/
def write : Value → List Char
  | .string s => quoted s
  | .number d => d.toPositional
  | .bool true => ['t', 'r', 'u', 'e']
  | .bool false => ['f', 'a', 'l', 's', 'e']
  | .null => ['n', 'u', 'l', 'l']
  | .array items => '[' :: writeItems items ++ [']']
  | .object members => '\x7b' :: writeMembers members ++ ['\x7d']
  | .bare _ => []

/-- The text of the items of an array. -/
def writeItems : List Value → List Char
  | [] => []
  | v :: rest =>
    match rest with
    | [] => v.write
    | _ :: _ => v.write ++ separator ++ writeItems rest

/-- The text of the members of an object. -/
def writeMembers : List (String × Value) → List Char
  | [] => []
  | (key, v) :: rest =>
    let member := quoted key ++ [':', ' '] ++ v.write
    match rest with
    | [] => member
    | _ :: _ => member ++ separator ++ writeMembers rest

end

@[simp] theorem writeItems_nil : writeItems [] = [] := by simp [writeItems]

@[simp] theorem writeItems_singleton (v : Value) : writeItems [v] = v.write := by
  simp [writeItems]

theorem writeItems_cons_cons (v w : Value) (rest : List Value) :
    writeItems (v :: w :: rest) = v.write ++ separator ++ writeItems (w :: rest) := by
  rw [writeItems]

/-- The text of a value, as a text that can be read. -/
def toText (v : Value) : Text := v.write.toArray

end Value
end Json
end Descent
