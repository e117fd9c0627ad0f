import Descent.Json.Value

/-!
# Equal values

Values of different kinds are never equal.  Numbers are equal when they have the same
value, arrays when their items are equal in order, and objects when they give equal values
to the same keys, in whatever order the keys stand.

A hash that goes with equality must not see what equality does not: it takes numbers by
their value, and the members of an object as a set.  How tuples and sets are hashed is left
open (`Hashing`), but for the order of the members of a set, which has no part in it.  A set of
values keeps a value only if no value of the same hash in it is equal to the new one.
-/

namespace Descent
namespace Json

namespace Value

mutual

/-- Whether two values are equal. -/
def equal : Value → Value → Bool
  | .string s, .string t => s == t
  | .number a, .number b => a.sameValue b
  | .bool a, .bool b => a == b
  | .null, .null => true
  | .array as, .array bs => equalItems as bs
  | .object as, .object bs => as.length == bs.length && equalMembers as bs
  | .bare a, .bare b => a == b
  | _, _ => false

/-- Whether two lists of items are equal in order. -/
def equalItems : List Value → List Value → Bool
  | [], [] => true
  | a :: as, b :: bs => equal a b && equalItems as bs
  | _, _ => false

/-- Whether every member of the first list has an equal value in the second. -/
def equalMembers : List (String × Value) → List (String × Value) → Bool
  | [], _ => true
  | (key, a) :: as, bs =>
    (match Members.find? key bs with
      | some b => equal a b
      | none => false) && equalMembers as bs

end

end Value

/-- How the parts of values are hashed: what has no parts by itself, a tuple from the hashes
of its members in order, and a set from the hashes of its members in whatever order they
are found. -/
structure Hashing where
  string : String → UInt64
  number : Decimal → UInt64
  bool : Bool → UInt64
  identity : Nat → UInt64
  tuple : List UInt64 → UInt64
  set : List UInt64 → UInt64
  set_perm : ∀ {as bs : List UInt64}, as.Perm bs → set as = set bs

namespace Hashing

/-- The sum of hashes. -/
def total (hashes : List UInt64) : UInt64 := hashes.foldr (· + ·) 0

theorem total_perm {as bs : List UInt64} (h : as.Perm bs) : total as = total bs := by
  induction h with
  | nil => rfl
  | cons a _ ih => exact congrArg (a + ·) ih
  | swap a b l =>
    show b + (a + total l) = a + (b + total l)
    rw [← UInt64.add_assoc, UInt64.add_comm b a, UInt64.add_assoc]
  | trans _ _ ih₁ ih₂ => exact ih₁.trans ih₂

/-- Hash numbers by their value, and sets by the sum of the hashes of their members. -/
def standard : Hashing where
  string := hash
  number d :=
    let n := d.normalize
    mixHash (hash n.negative) (mixHash (hash n.coefficient) (hash n.exponent))
  bool := hash
  identity := hash
  tuple := List.foldr mixHash 7
  set := total
  set_perm := total_perm

end Hashing

namespace Value

mutual

/-- The hash of a value: that of the tuple of its fields, and for an object that of the set of
its members. -/
def hashWith (h : Hashing) : Value → UInt64
  | .string s => h.tuple [h.string s]
  | .number d => h.tuple [h.number d]
  | .bool b => h.tuple [h.bool b]
  | .null => h.tuple []
  | .array items => h.tuple [h.tuple (hashItems h items)]
  | .object members => h.set (hashMembers h members)
  | .bare tag => h.identity tag

/-- The hashes of the items of an array. -/
def hashItems (h : Hashing) : List Value → List UInt64
  | [] => []
  | v :: rest => v.hashWith h :: hashItems h rest

/-- The hashes of the members of an object, each a pair of its key and its value. -/
def hashMembers (h : Hashing) : List (String × Value) → List UInt64
  | [] => []
  | (key, v) :: rest => h.tuple [h.string key, v.hashWith h] :: hashMembers h rest

end

/-- Put a value into a set, unless one of the same hash in it is equal to it. -/
def insertDistinct (h : Hashing) (set : List Value) (v : Value) : List Value :=
  if set.any fun w => w.hashWith h == v.hashWith h && w.equal v then set else set ++ [v]

/-- The set of the values of a list. -/
def distinct (h : Hashing) (values : List Value) : List Value :=
  values.foldl (insertDistinct h) []

end Value
end Json
end Descent
