import Descent.Number.Decimal

/-!
# JSON values

A value is a string, a number, a truth value, null, an array of values, or an object,
which is a list of members in the order in which their keys were first met.  Numbers are
decimals, so they are exact.

There is one more kind, the bare value.  It has no content and no reading yields one; two
bare values are the same only if they carry the same tag.
-/

namespace Descent
namespace Json

/-- A JSON value. -/
inductive Value where
  | string (s : String)
  | number (d : Decimal)
  | bool (b : Bool)
  | null
  | array (items : List Value)
  | object (members : List (String × Value))
  | bare (tag : Nat)

/-! ## Members -/

namespace Members

variable {α : Type}

/-- Give a key its value: at the place of the key if it is there, else at the end. -/
def put (key : String) (value : α) : List (String × α) → List (String × α)
  | [] => [(key, value)]
  | member :: rest =>
    if member.1 = key then (key, value) :: rest else member :: put key value rest

/-- The members that a list of pairs denotes: each key at its first position with its last
value. -/
def ofPairs (pairs : List (String × α)) : List (String × α) :=
  pairs.foldl (fun members pair => put pair.1 pair.2 members) []

/-- The value of a key. -/
def find? (key : String) : List (String × α) → Option α
  | [] => none
  | member :: rest => if member.1 = key then some member.2 else find? key rest

@[simp] theorem find?_nil (key : String) : find? key ([] : List (String × α)) = none := rfl

theorem find?_cons (key : String) (member : String × α) (rest : List (String × α)) :
    find? key (member :: rest) = if member.1 = key then some member.2 else find? key rest :=
  rfl

/-- After a key is given its value, it has that value and every other key the value it had
before. -/
theorem find?_put (key k : String) (value : α) (members : List (String × α)) :
    find? k (put key value members) = if key = k then some value else find? k members := by
  induction members with
  | nil => simp [put, find?_cons]
  | cons member rest ih =>
    by_cases h : member.1 = key
    · subst h
      by_cases hk : member.1 = k <;> simp [put, find?_cons, hk]
    · by_cases hk : member.1 = k
      · subst hk
        simp [put, h, find?_cons, Ne.symm h]
      · simp [put, h, find?_cons, hk, ih]

end Members

namespace Value

/-- The kinds of values, under the names that messages use. -/
def kind : Value → String
  | .string _ => "JsonString"
  | .number _ => "JsonNumber"
  | .bool _ => "JsonBool"
  | .null => "JsonNull"
  | .array _ => "JsonArray"
  | .object _ => "JsonObject"
  | .bare _ => "JsonValue"

/-- The object that a list of pairs denotes. -/
def ofPairs (pairs : List (String × Value)) : Value := .object (Members.ofPairs pairs)

/-! ## Nesting -/

mutual

/-- The nesting level: one for a value without parts, and otherwise one more than the
greatest level of a part. -/
def level : Value → Nat
  | .array items => 1 + levelItems items
  | .object members => 1 + levelMembers members
  | _ => 1

/-- The greatest level among the items of an array. -/
def levelItems : List Value → Nat
  | [] => 0
  | v :: rest => max v.level (levelItems rest)

/-- The greatest level among the members of an object. -/
def levelMembers : List (String × Value) → Nat
  | [] => 0
  | (_, v) :: rest => max v.level (levelMembers rest)

end

end Value
end Json
end Descent
