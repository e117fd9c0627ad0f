import Descent.Proofs.Json.Equality
import Descent.Proofs.Number.Rational

/-!
# Values that are the same

Equality of values is computed from one side: the members of an object are looked up in the
other object, which has as many.  What it means has two sides alike (`Value.Same`): numbers
are the same number, arrays have the same items at the same places, and objects are the same
finite map.  If no key occurs twice in an object, then looking the keys of one object up is
enough, since a list of distinct keys that are all found in a list of the same length leaves
none of that list out.

So equality is an equivalence relation on the values in whose objects no key occurs twice
(`Value.Tree`).  An object that is made from pairs is of this kind.
-/

namespace Descent
namespace Json

namespace Value

/-- In no object of the value does a key occur twice. -/
inductive DistinctKeys : Value → Prop where
  | string (s : String) : DistinctKeys (.string s)
  | number (d : Decimal) : DistinctKeys (.number d)
  | bool (b : Bool) : DistinctKeys (.bool b)
  | null : DistinctKeys .null
  | array {items : List Value} (h : ∀ v ∈ items, DistinctKeys v) : DistinctKeys (.array items)
  | object {members : List (String × Value)} (hnodup : (Members.keys members).Nodup)
      (h : ∀ m ∈ members, DistinctKeys m.2) : DistinctKeys (.object members)
  | bare (tag : Nat) : DistinctKeys (.bare tag)

/-- Two values are the same: of the same kind, with the same content.  Numbers are compared
by the number that they stand for, arrays place by place, and objects key by key. -/
inductive Same : Value → Value → Prop where
  | string (s : String) : Same (.string s) (.string s)
  | number {a b : Decimal} (h : a.toRat = b.toRat) : Same (.number a) (.number b)
  | bool (b : Bool) : Same (.bool b) (.bool b)
  | null : Same .null .null
  | array {as bs : List Value} (hlength : as.length = bs.length)
      (hitems : ∀ (i : Nat) (a b : Value), as[i]? = some a → bs[i]? = some b → Same a b) :
      Same (.array as) (.array bs)
  | object {as bs : List (String × Value)}
      (hkeys : ∀ key, key ∈ Members.keys as ↔ key ∈ Members.keys bs)
      (hvalues : ∀ (key : String) (a b : Value), Members.find? key as = some a →
        Members.find? key bs = some b → Same a b) :
      Same (.object as) (.object bs)
  | bare (tag : Nat) : Same (.bare tag) (.bare tag)

variable {a b c v : Value}

/-- An object that is made from pairs has distinct keys. -/
theorem DistinctKeys.ofPairs {pairs : List (String × Value)}
    (h : ∀ pair ∈ pairs, pair.2.DistinctKeys) : (Value.ofPairs pairs).DistinctKeys := by
  obtain ⟨hnodup, hmem⟩ := Members.nodup_keys_ofPairs pairs
  exact .object hnodup fun m hm => h m (hmem m hm)

/-! ## Equality decides sameness -/

theorem DistinctKeys.same_of_equal (ha : a.DistinctKeys) (h : a.equal b = true) :
    a.Same b := by
  induction ha generalizing b with
  | string s =>
    cases b <;> simp only [equal, Bool.false_eq_true] at h
    obtain rfl := eq_of_beq h
    exact .string s
  | number d =>
    cases b <;> simp only [equal, Bool.false_eq_true] at h
    exact .number (Decimal.sameValue_iff_toRat_eq.mp h)
  | bool t =>
    cases b <;> simp only [equal, Bool.false_eq_true] at h
    obtain rfl := eq_of_beq h
    exact .bool t
  | null =>
    cases b <;> simp only [equal, Bool.false_eq_true] at h
    exact .null
  | @array as _ ih =>
    cases b <;> simp only [equal, Bool.false_eq_true] at h
    next bs =>
    obtain ⟨hlength, hitems⟩ := List.forall₂_iff_get.mp (equalItems_iff.mp h)
    refine .array hlength fun i x y hx hy => ?_
    obtain ⟨hi, rfl⟩ := List.getElem?_eq_some_iff.mp hx
    obtain ⟨hi', rfl⟩ := List.getElem?_eq_some_iff.mp hy
    exact ih _ (List.getElem_mem hi) (hitems i hi hi')
  | @object as hnodup _ ih =>
    cases b <;> simp only [equal, Bool.false_eq_true] at h
    next bs =>
    obtain ⟨hlength, hmembers⟩ := Bool.and_eq_true_iff.mp h
    rw [equalMembers_iff] at hmembers
    refine .object (Members.mem_keys_iff_of_subset hnodup (eq_of_beq hlength).ge ?_) ?_
    · intro key hkey
      obtain ⟨m, hm, rfl⟩ := List.mem_map.mp hkey
      obtain ⟨y, hy, -⟩ := hmembers m hm
      exact Members.exists_find?_iff.mp ⟨y, hy⟩
    · intro key x y hx hy
      have hmem := Members.mem_of_find? hx
      obtain ⟨y', hy', hequal⟩ := hmembers _ hmem
      obtain rfl := Option.some_inj.mp (hy.symm.trans hy')
      exact ih _ hmem hequal
  | bare tag =>
    cases b <;> simp only [equal, Bool.false_eq_true] at h
    obtain rfl := eq_of_beq h
    exact .bare tag

theorem Same.equal (h : a.Same b) (ha : a.DistinctKeys) (hb : b.DistinctKeys) :
    a.equal b = true := by
  induction h with
  | string | bool | bare => simp [Value.equal]
  | null => simp [Value.equal]
  | number h =>
    rw [Value.equal]
    exact Decimal.sameValue_iff_toRat_eq.mpr h
  | @array as bs hlength _ ih =>
    obtain _ | _ | _ | _ | ha := ha
    obtain _ | _ | _ | _ | hb := hb
    rw [Value.equal, equalItems_iff, List.forall₂_iff_get]
    refine ⟨hlength, fun i hi hi' => ?_⟩
    exact ih i _ _ (List.getElem?_eq_getElem hi) (List.getElem?_eq_getElem hi')
      (ha _ (List.getElem_mem hi)) (hb _ (List.getElem_mem hi'))
  | @object as bs hkeys _ ih =>
    cases ha with | object hnodup ha => ?_
    cases hb with | object hnodup' hb => ?_
    rw [Value.equal, Bool.and_eq_true, equalMembers_iff]
    refine ⟨?_, fun m hm => ?_⟩
    · rw [beq_iff_eq]
      exact Members.length_eq_of_mem_keys_iff hnodup hnodup' hkeys
    · have hx := (Members.find?_eq_some_iff hnodup).mpr hm
      obtain ⟨y, hy⟩ := Members.exists_find?_iff.mpr
        ((hkeys m.1).mp (Members.exists_find?_iff.mp ⟨_, hx⟩))
      exact ⟨y, hy, ih _ _ _ hx hy (ha m hm) (hb _ (Members.mem_of_find? hy))⟩

/-- **Equality of values decides whether they are the same.** -/
theorem equal_iff_same (ha : a.DistinctKeys) (hb : b.DistinctKeys) :
    a.equal b = true ↔ a.Same b :=
  ⟨ha.same_of_equal, fun h => h.equal ha hb⟩

/-! ## Sameness is an equivalence relation -/

theorem DistinctKeys.same_self (h : v.DistinctKeys) : v.Same v := by
  induction h with
  | string s => exact .string s
  | number d => exact .number rfl
  | bool b => exact .bool b
  | null => exact .null
  | array _ ih =>
    refine .array rfl fun i x y hx hy => ?_
    obtain rfl := Option.some_inj.mp (hx.symm.trans hy)
    exact ih x (List.mem_of_getElem? hx)
  | object _ _ ih =>
    refine .object (fun _ => Iff.rfl) fun key x y hx hy => ?_
    obtain rfl := Option.some_inj.mp (hx.symm.trans hy)
    exact ih _ (Members.mem_of_find? hx)
  | bare tag => exact .bare tag

theorem Same.symm (h : a.Same b) : b.Same a := by
  induction h with
  | string s => exact .string s
  | number h => exact .number h.symm
  | bool b => exact .bool b
  | null => exact .null
  | array hlength _ ih => exact .array hlength.symm fun i x y hx hy => ih i y x hy hx
  | object hkeys _ ih =>
    exact .object (fun key => (hkeys key).symm) fun key x y hx hy => ih key y x hy hx
  | bare tag => exact .bare tag

theorem Same.trans (h : a.Same b) (h' : b.Same c) : a.Same c := by
  induction h generalizing c with
  | string | bool | null | bare => exact h'
  | number h =>
    cases h' with
    | number h' => exact .number (h.trans h')
  | array hlength _ ih =>
    cases h' with
    | array hlength' hitems' =>
      refine .array (hlength.trans hlength') fun i x z hx hz => ?_
      obtain ⟨hi, -⟩ := List.getElem?_eq_some_iff.mp hx
      have hy := List.getElem?_eq_getElem (hlength ▸ hi)
      exact ih i x _ hx hy (hitems' i _ z hy hz)
  | object hkeys _ ih =>
    cases h' with
    | object hkeys' hvalues' =>
      refine .object (fun key => (hkeys key).trans (hkeys' key)) fun key x z hx hz => ?_
      obtain ⟨y, hy⟩ := Members.exists_find?_iff.mpr
        ((hkeys key).mp (Members.exists_find?_iff.mp ⟨x, hx⟩))
      exact ih key x y hx hy (hvalues' key y z hy hz)

/-- A value in whose objects no key occurs twice. -/
structure Tree where
  value : Value
  distinctKeys : value.DistinctKeys

/-- Equality of values is an equivalence relation. -/
theorem equal_equivalence : Equivalence fun a b : Tree => a.value.equal b.value = true where
  refl a := a.distinctKeys.same_self.equal a.distinctKeys a.distinctKeys
  symm {a b} h := (a.distinctKeys.same_of_equal h).symm.equal b.distinctKeys a.distinctKeys
  trans {a b c} h h' := ((a.distinctKeys.same_of_equal h).trans
    (b.distinctKeys.same_of_equal h')).equal a.distinctKeys c.distinctKeys

instance Tree.setoid : Setoid Tree where
  r a b := a.value.equal b.value = true
  iseqv := equal_equivalence

end Value
end Json
end Descent
