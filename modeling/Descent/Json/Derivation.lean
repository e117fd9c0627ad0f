import Descent.Json.Grammar

/-!
# What the grammar derives

The grammar of `Descent.Json.Grammar` is a program: it tries alternatives in order, takes
as much as it can, and never takes a choice back.  The relation of this module says on its
own which texts are values, and which value a text denotes; it knows no order of trying.

A derivation has a nesting level.  A value without parts and an empty container have level
one, and any other container has one more than the greatest level of its parts.  All
members of an object count for its level, also those whose key occurs again later, although
the object that is denoted keeps only the last value of a key (`Members.find?_ofPairs`) and
has each key once, where it came first (`Members.keys_ofPairs`).  The number of a text is
that of its digits before and after the point (`Decimal.toRat_ofDigits`).
-/

namespace Descent
namespace Json

/-- A run of blanks, which may be empty. -/
def IsBlank (w : List Char) : Prop := ∀ ch ∈ w, blanks.admits ch = true

/-- One or more digits. -/
def IsDigits (w : List Char) : Prop := w ≠ [] ∧ ∀ ch ∈ w, '0' ≤ ch ∧ ch ≤ '9'

/-- A sign that is written or left out. -/
def signText (negative : Bool) : List Char := if negative then ['-'] else []

/-- The text of a number and the decimal that it denotes. -/
inductive DerivesNumber : List Char → Decimal → Prop where
  | integer {negative : Bool} {whole : List Char} (hw : IsDigits whole) :
      DerivesNumber (signText negative ++ whole) (.ofDigits negative whole [])
  | fractional {negative : Bool} {whole fraction : List Char} (hw : IsDigits whole)
      (hf : IsDigits fraction) :
      DerivesNumber (signText negative ++ whole ++ '.' :: fraction)
        (.ofDigits negative whole fraction)

mutual

/-- A text, the value that it denotes, and the level of the derivation. -/
inductive Derives : List Char → Value → Nat → Prop where
  | string {content : List Char} (h : '"' ∉ content) :
      Derives ('"' :: content ++ ['"']) (.string (String.ofList content)) 1
  | number {t : List Char} {d : Decimal} (h : DerivesNumber t d) :
      Derives t (.number d) 1
  | null : Derives ['n', 'u', 'l', 'l'] .null 1
  | true : Derives ['t', 'r', 'u', 'e'] (.bool true) 1
  | false : Derives ['f', 'a', 'l', 's', 'e'] (.bool false) 1
  | emptyArray {w : List Char} (hw : IsBlank w) : Derives ('[' :: w ++ [']']) (.array []) 1
  | array {w t w' : List Char} {items : List Value} {n : Nat} (hw : IsBlank w)
      (h : DerivesElements t items n) (hw' : IsBlank w') :
      Derives ('[' :: w ++ t ++ w' ++ [']']) (.array items) (n + 1)
  | emptyObject {w : List Char} (hw : IsBlank w) :
      Derives ('\x7b' :: w ++ ['\x7d']) (.object []) 1
  | object {w t w' : List Char} {pairs : List (String × Value)} {n : Nat} (hw : IsBlank w)
      (h : DerivesMembers t pairs n) (hw' : IsBlank w') :
      Derives ('\x7b' :: w ++ t ++ w' ++ ['\x7d']) (.ofPairs pairs) (n + 1)

/-- Elements with commas between them, their values, and the greatest of their levels. -/
inductive DerivesElements : List Char → List Value → Nat → Prop where
  | single {w t w' : List Char} {v : Value} {n : Nat} (hw : IsBlank w)
      (h : Derives t v n) (hw' : IsBlank w') :
      DerivesElements (w ++ t ++ w') [v] n
  | cons {w t w' rest : List Char} {v : Value} {vs : List Value} {n m : Nat}
      (hw : IsBlank w) (h : Derives t v n) (hw' : IsBlank w')
      (hr : DerivesElements rest vs m) :
      DerivesElements (w ++ t ++ w' ++ ',' :: rest) (v :: vs) (max n m)

/-- Members with commas between them, their keys and values, and the greatest of their
levels. -/
inductive DerivesMembers : List Char → List (String × Value) → Nat → Prop where
  | single {t : List Char} {member : String × Value} {n : Nat}
      (h : DerivesMember t member n) : DerivesMembers t [member] n
  | cons {t rest : List Char} {member : String × Value}
      {members : List (String × Value)} {n m : Nat} (h : DerivesMember t member n)
      (hr : DerivesMembers rest members m) :
      DerivesMembers (t ++ ',' :: rest) (member :: members) (max n m)

/-- One member, its key and value, and the level of the value. -/
inductive DerivesMember : List Char → String × Value → Nat → Prop where
  | mk {a b c d key t : List Char} {v : Value} {n : Nat} (ha : IsBlank a) (hb : IsBlank b)
      (hc : IsBlank c) (hd : IsBlank d) (hk : '"' ∉ key) (h : Derives t v n) :
      DerivesMember (a ++ '"' :: key ++ '"' :: b ++ ':' :: c ++ t ++ d)
        (String.ofList key, v) n

end

/-- A text is a document: a value with blanks around it. -/
def DerivesDocument (t : List Char) (v : Value) (n : Nat) : Prop :=
  ∃ w u w', IsBlank w ∧ Derives u v n ∧ IsBlank w' ∧ t = w ++ u ++ w'

@[simp] theorem isBlank_nil : IsBlank [] := by simp [IsBlank]

/-- Blanks are spaces, tabs, line feeds and carriage returns, and nothing else. -/
theorem isBlank_iff {w : List Char} :
    IsBlank w ↔ ∀ ch ∈ w, ch = ' ' ∨ ch = '\t' ∨ ch = '\n' ∨ ch = '\r' :=
  forall₂_congr fun _ _ => admits_blanks_iff

theorem isBlank_append {a b : List Char} :
    IsBlank (a ++ b) ↔ IsBlank a ∧ IsBlank b := by
  simp only [IsBlank, List.mem_append]
  constructor
  · intro h
    exact ⟨fun ch hc => h ch (Or.inl hc), fun ch hc => h ch (Or.inr hc)⟩
  · rintro ⟨ha, hb⟩ ch (hc | hc)
    · exact ha ch hc
    · exact hb ch hc

/-- Blanks before and after a member belong to it. -/
theorem DerivesMember.pad {w t w' : List Char} {member : String × Value} {n : Nat}
    (hw : IsBlank w) (h : DerivesMember t member n) (hw' : IsBlank w') :
    DerivesMember (w ++ t ++ w') member n := by
  obtain @⟨a, b, c, d, key, t, v, n, ha, hb, hc, hd, hk, ht⟩ := h
  have := DerivesMember.mk (isBlank_append.mpr ⟨hw, ha⟩) hb hc
    (isBlank_append.mpr ⟨hd, hw'⟩) hk ht
  simpa using this

end Json
end Descent
