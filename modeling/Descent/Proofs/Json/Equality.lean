import Descent.Json.Equality
import Descent.Json.Plain
import Descent.Proofs.Json.Written

/-!
# Equal values and equal plain forms

Equality of lists of items goes item by item; equality of members looks each key up.  Both
are put here as statements about all items and all keys.  A value whose numbers are replaced
by numbers of the same value is equal to the one it was, and so is its plain form.
-/

namespace Descent
namespace Json

namespace Value

variable {P : Decimal → Prop} {f : Decimal → Decimal}

theorem equalItems_iff {as bs : List Value} :
    equalItems as bs = true ↔ List.Forall₂ (fun a b => a.equal b = true) as bs := by
  induction as generalizing bs with
  | nil => cases bs <;> simp [equalItems]
  | cons a as ih =>
    cases bs with
    | nil => simp [equalItems]
    | cons b bs => simp [equalItems, ih]

theorem equalMembers_iff {as bs : List (String × Value)} :
    equalMembers as bs = true ↔
      ∀ a ∈ as, ∃ b, Members.find? a.1 bs = some b ∧ a.2.equal b = true := by
  induction as with
  | nil => simp [equalMembers]
  | cons a as ih =>
    rw [equalMembers, Bool.and_eq_true, ih, List.forall_mem_cons]
    cases h : Members.find? a.1 bs <;> simp

/-- **Numbers of the same value in the same places make an equal value.** -/
theorem Writable.equal_mapNumbers {v : Value} (h : v.Writable P)
    (hf : ∀ d, (f d).sameValue d = true) : (v.mapNumbers f).equal v = true := by
  induction h with
  | string _ => simp [mapNumbers, equal]
  | @number d _ =>
    rw [mapNumbers, equal]
    exact hf d
  | bool b => simp [mapNumbers, equal]
  | null => simp [mapNumbers, equal]
  | @array items _ ih =>
    rw [mapNumbers, mapNumbersItems_eq, equal, equalItems_iff, List.forall₂_map_left_iff]
    exact List.forall₂_same.mpr ih
  | @object members hnodup _ _ ih =>
    rw [mapNumbers, mapNumbersMembers_eq, equal, Bool.and_eq_true, equalMembers_iff]
    refine ⟨by simp, Members.exists_find?_of_forall₂
      (R := fun a b : Value => a.equal b = true) ?_ hnodup⟩
    rw [List.forall₂_map_left_iff]
    exact List.forall₂_same.mpr fun m hm => ⟨rfl, ih m hm⟩

end Value

/-! ## Plain forms -/

namespace Plain

/-- The number that a truth value counts as. -/
def ofBool (b : Bool) : Decimal := { coefficient := b.toNat }

mutual

/-- Whether two plain forms are equal.  Numbers are compared by their value, and truth
values count as the numbers zero and one; lists are compared in order, and tables by what
they give to each key. -/
def equal : Plain → Plain → Bool
  | .nothing, .nothing => true
  | .bool a, .bool b => a == b
  | .bool a, .number d => (ofBool a).sameValue d
  | .number d, .bool b => d.sameValue (ofBool b)
  | .string s, .string t => s == t
  | .number a, .number b => a.sameValue b
  | .list as, .list bs => equalItems as bs
  | .table as, .table bs => as.length == bs.length && equalEntries as bs
  | _, _ => false

/-- Whether two lists are equal in order. -/
def equalItems : List Plain → List Plain → Bool
  | [], [] => true
  | a :: as, b :: bs => equal a b && equalItems as bs
  | _, _ => false

/-- Whether every entry of the first list has an equal one in the second. -/
def equalEntries : List (String × Plain) → List (String × Plain) → Bool
  | [], _ => true
  | (key, a) :: as, bs =>
    (match Members.find? key bs with
      | some b => equal a b
      | none => false) && equalEntries as bs

end

theorem equalItems_iff {as bs : List Plain} :
    equalItems as bs = true ↔ List.Forall₂ (fun a b => a.equal b = true) as bs := by
  induction as generalizing bs with
  | nil => cases bs <;> simp [equalItems]
  | cons a as ih =>
    cases bs with
    | nil => simp [equalItems]
    | cons b bs => simp [equalItems, ih]

theorem equalEntries_iff {as bs : List (String × Plain)} :
    equalEntries as bs = true ↔
      ∀ a ∈ as, ∃ b, Members.find? a.1 bs = some b ∧ a.2.equal b = true := by
  induction as with
  | nil => simp [equalEntries]
  | cons a as ih =>
    rw [equalEntries, Bool.and_eq_true, ih, List.forall_mem_cons]
    cases h : Members.find? a.1 bs <;> simp

end Plain

namespace Value

variable {P : Decimal → Prop} {f : Decimal → Decimal}

/-- The plain form of a value with other numbers and the plain form of the value are there
and are equal. -/
def PlainAgrees (f : Decimal → Decimal) (v : Value) : Prop :=
  ∃ a b, (v.mapNumbers f).toPlain? = some a ∧ v.toPlain? = some b ∧ a.equal b = true

theorem exists_toPlainItems {items : List Value} (h : ∀ v ∈ items, v.PlainAgrees f) :
    ∃ as bs, toPlainItems? (mapNumbersItems f items) = some as ∧
      toPlainItems? items = some bs ∧
      List.Forall₂ (fun a b => a.equal b = true) as bs := by
  induction items with
  | nil => exact ⟨[], [], by simp [toPlainItems?, mapNumbersItems], by simp [toPlainItems?], .nil⟩
  | cons v rest ih =>
    obtain ⟨⟨a, b, ha, hb, hab⟩, hrest⟩ := List.forall_mem_cons.mp h
    obtain ⟨as, bs, has, hbs, hall⟩ := ih hrest
    refine ⟨a :: as, b :: bs, ?_, ?_, .cons hab hall⟩
    · simp [mapNumbersItems, toPlainItems?, ha, has]
    · simp [toPlainItems?, hb, hbs]

theorem exists_toPlainMembers {members : List (String × Value)}
    (h : ∀ m ∈ members, m.2.PlainAgrees f) :
    ∃ as bs, toPlainMembers? (mapNumbersMembers f members) = some as ∧
      toPlainMembers? members = some bs ∧ Members.keys bs = Members.keys members ∧
      List.Forall₂ (fun a b => a.1 = b.1 ∧ a.2.equal b.2 = true) as bs := by
  induction members with
  | nil =>
    exact ⟨[], [], by simp [toPlainMembers?, mapNumbersMembers], by simp [toPlainMembers?],
      rfl, .nil⟩
  | cons m rest ih =>
    obtain ⟨⟨a, b, ha, hb, hab⟩, hrest⟩ := List.forall_mem_cons.mp h
    obtain ⟨as, bs, has, hbs, hkeys, hall⟩ := ih hrest
    refine ⟨(m.1, a) :: as, (m.1, b) :: bs, ?_, ?_, ?_, .cons ⟨rfl, hab⟩ hall⟩
    · simp [mapNumbersMembers, toPlainMembers?, ha, has]
    · simp [toPlainMembers?, hb, hbs]
    · rw [Members.keys_cons, Members.keys_cons, hkeys]

/-- **Numbers of the same value in the same places make an equal plain form.** -/
theorem Writable.plainAgrees {v : Value} (h : v.Writable P)
    (hf : ∀ d, (f d).sameValue d = true) : v.PlainAgrees f := by
  induction h with
  | @string s _ =>
    exact ⟨.string s, .string s, by simp [mapNumbers, toPlain?], by simp [toPlain?],
      by simp [Plain.equal]⟩
  | @number d _ =>
    refine ⟨.number (f d), .number d, by simp [mapNumbers, toPlain?], by simp [toPlain?], ?_⟩
    rw [Plain.equal]
    exact hf d
  | bool b =>
    exact ⟨.bool b, .bool b, by simp [mapNumbers, toPlain?], by simp [toPlain?],
      by simp [Plain.equal]⟩
  | null =>
    exact ⟨.nothing, .nothing, by simp [mapNumbers, toPlain?], by simp [toPlain?],
      by simp [Plain.equal]⟩
  | array _ ih =>
    obtain ⟨as, bs, has, hbs, hall⟩ := exists_toPlainItems ih
    refine ⟨.list as, .list bs, by simp [mapNumbers, toPlain?, has], by simp [toPlain?, hbs], ?_⟩
    rw [Plain.equal]
    exact Plain.equalItems_iff.mpr hall
  | object hnodup _ _ ih =>
    obtain ⟨as, bs, has, hbs, hkeys, hall⟩ := exists_toPlainMembers ih
    refine ⟨.table as, .table bs, by simp [mapNumbers, toPlain?, has],
      by simp [toPlain?, hbs], ?_⟩
    rw [Plain.equal, Bool.and_eq_true, Plain.equalEntries_iff]
    refine ⟨by simp [hall.length_eq], Members.exists_find?_of_forall₂
      (R := fun a b : Plain => a.equal b = true) hall ?_⟩
    rw [hkeys]
    exact hnodup

end Value

end Json
end Descent
