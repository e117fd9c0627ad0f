/-!
# Texts and their slices

A text is a sequence of characters addressed by position.  Positions and slice bounds
are integers, and a negative one counts from the end: `-1` is the last character.  A
position outside the text names no character, while a slice bound outside it is moved
to the nearer end, so that every pair of bounds cuts out some piece of the text.

The other operations here are the searches that the rest of the library needs: whether
a text continues with a given one at a position, how far two texts agree, and where a
character occurs last.
-/

namespace Descent

/-- A sequence of characters, addressed by position. -/
abbrev Text := Array Char

namespace Text

/-- The characters of a string. -/
def ofString (s : String) : Text := s.toList.toArray

/-- The string with the characters of a text. -/
def asString (t : Text) : String := String.ofList t.toList

@[simp] theorem toList_ofString (s : String) : (ofString s).toList = s.toList := rfl

@[simp] theorem asString_ofString (s : String) : asString (ofString s) = s := by
  simp [asString]

@[simp] theorem ofString_asString (t : Text) : ofString (asString t) = t := by
  simp [ofString, asString]

/-- Texts one after the other. -/
def join (parts : List Text) : Text := parts.foldr (· ++ ·) #[]

@[simp] theorem join_nil : join [] = #[] := rfl

@[simp] theorem join_cons (t : Text) (parts : List Text) :
    join (t :: parts) = t ++ join parts := rfl

/-! ## Positions and bounds -/

/-- Where the slice bound `i` lands in a text of `n` characters: counted from the end
when negative, and moved to the nearer end when it lies outside. -/
def bound (n : Nat) (i : Int) : Nat :=
  if i < 0 then (i + n).toNat else min i.toNat n

@[simp] theorem bound_natCast (n k : Nat) : bound n (k : Int) = min k n := by
  unfold bound; split <;> omega

/-- The character at position `i`, if there is one. -/
def at? (t : Text) (i : Int) : Option Char :=
  if 0 ≤ i then t[i.toNat]?
  else if 0 ≤ i + t.size then t[(i + t.size).toNat]?
  else none

@[simp] theorem at?_natCast (t : Text) (k : Nat) : at? t (k : Int) = t[k]? := by
  simp [at?]

theorem at?_of_nonneg {t : Text} {i : Int} (h : 0 ≤ i) : at? t i = t[i.toNat]? := by
  simp [at?, h]

/-- What is said of a position before the start of a text. -/
def outOfRange : String := "string index out of range"

/-- The characters from bound `lo` up to, but not including, bound `hi`. -/
def slice (t : Text) (lo hi : Int) : Text :=
  t.extract (bound t.size lo) (bound t.size hi)

theorem slice_natCast (t : Text) (lo hi : Nat) :
    slice t lo hi = t.extract (min lo t.size) (min hi t.size) := by
  simp [slice]

/-! ## Searches -/

/-- How many leading characters two lists share. -/
def commonPrefix : List Char → List Char → Nat
  | a :: as, b :: bs => if a = b then commonPrefix as bs + 1 else 0
  | _, _ => 0

@[simp] theorem commonPrefix_nil_left (l : List Char) : commonPrefix [] l = 0 := by
  simp [commonPrefix]

@[simp] theorem commonPrefix_nil_right (l : List Char) : commonPrefix l [] = 0 := by
  cases l <;> simp [commonPrefix]

theorem commonPrefix_cons (a b : Char) (as bs : List Char) :
    commonPrefix (a :: as) (b :: bs) = if a = b then commonPrefix as bs + 1 else 0 := rfl

/-- The shared part is a prefix of the first list. -/
theorem commonPrefix_le_left (l m : List Char) : commonPrefix l m ≤ l.length := by
  induction l generalizing m with
  | nil => simp
  | cons a as ih =>
    cases m with
    | nil => simp
    | cons b bs =>
      rw [commonPrefix_cons]
      split
      · have := ih bs
        simp only [List.length_cons]
        omega
      · omega

/-- Whether `t` reads `literal` from position `p` on.  A negative `p` counts from the
end and is moved to the start when it lies before it; past the end nothing is read, not
even the empty text. -/
def continuesWith (t literal : Text) (p : Int) : Bool :=
  let start := if p < 0 then (p + t.size).toNat else p.toNat
  start + literal.size ≤ t.size && t.extract start (start + literal.size) == literal

/-- The last position before `n` that holds `ch`. -/
def lastBefore (t : Text) (ch : Char) : Nat → Option Nat
  | 0 => none
  | n + 1 => if t[n]? = some ch then some n else lastBefore t ch n

@[simp] theorem lastBefore_zero (t : Text) (ch : Char) : lastBefore t ch 0 = none := rfl

theorem lastBefore_succ (t : Text) (ch : Char) (n : Nat) :
    lastBefore t ch (n + 1) = if t[n]? = some ch then some n else lastBefore t ch n := rfl

end Text
end Descent
