import Descent.Proofs.Json.Sameness
import Mathlib.Data.Set.Card
import Mathlib.Tactic.NormNum.Inv

/-!
# Hashes and sets of values

A hash goes with equality of values: it takes nothing of a number but what depends on the
number that it stands for, and the members of an object as a set, so that their order does not
count (`Value.Same.hashWith_eq`).

A set is filled value by value, and a value is left out if one of the same hash in the set is
equal to it.  As equal values have the same hash, it is left out if any value in the set is
equal to it; so a set always holds one value of each class of equal values among those that
were put into it, whatever their order was (`Value.Represents`).
-/

namespace Descent
namespace Json

/-- The hash of a number depends on nothing but the number. -/
def Hashing.RespectsNumbers (h : Hashing) : Prop :=
  ∀ a b : Decimal, a.toRat = b.toRat → h.number a = h.number b

theorem Hashing.standard_respectsNumbers : standard.RespectsNumbers := by
  intro a b hab
  have hnormal := Decimal.sameValue_iff.mp (Decimal.sameValue_iff_toRat_eq.mpr hab)
  simp only [standard, hnormal]

namespace Value

variable {h : Hashing} {a b v : Value}

/-! ## Hashes -/

theorem hashItems_eq (h : Hashing) (items : List Value) :
    hashItems h items = items.map (hashWith h) := by
  induction items with
  | nil => rw [hashItems, List.map_nil]
  | cons v rest ih => rw [hashItems, ih, List.map_cons]

theorem hashMembers_eq (h : Hashing) (members : List (String × Value)) :
    hashMembers h members
      = (members.map fun m => (m.1, m.2.hashWith h)).map fun m => h.tuple [h.string m.1, m.2] := by
  induction members with
  | nil => rw [hashMembers, List.map_nil, List.map_nil]
  | cons m rest ih => rw [hashMembers, ih, List.map_cons, List.map_cons]

/-- **Values that are the same have the same hash.** -/
theorem Same.hashWith_eq (hsame : a.Same b) (hh : h.RespectsNumbers) (ha : a.DistinctKeys)
    (hb : b.DistinctKeys) : a.hashWith h = b.hashWith h := by
  induction hsame with
  | string | bool | null | bare => rfl
  | number hab => rw [hashWith, hashWith, hh _ _ hab]
  | @array as bs hlength _ ih =>
    cases ha with | array ha => ?_
    cases hb with | array hb => ?_
    have hmap : as.map (hashWith h) = bs.map (hashWith h) := by
      refine List.ext_getElem (by simpa using hlength) fun i hi hi' => ?_
      rw [List.getElem_map, List.getElem_map]
      exact ih i _ _ (List.getElem?_eq_getElem _) (List.getElem?_eq_getElem _)
        (ha _ (List.getElem_mem _)) (hb _ (List.getElem_mem _))
    rw [hashWith, hashWith, hashItems_eq, hashItems_eq, hmap]
  | @object as bs hkeys _ ih =>
    cases ha with | object hnodup ha => ?_
    cases hb with | object hnodup' hb => ?_
    have hperm := Members.map_perm_of_find? (hashWith h) hnodup hnodup' hkeys
      fun key x y hx hy =>
        ih key x y hx hy (ha _ (Members.mem_of_find? hx)) (hb _ (Members.mem_of_find? hy))
    -- the hash of a set does not see the order of the members
    rw [hashWith, hashWith, hashMembers_eq, hashMembers_eq, h.set_perm (hperm.map _)]

theorem hashWith_eq_of_equiv (hh : h.RespectsNumbers) {a b : Tree} (hequal : a ≈ b) :
    a.value.hashWith h = b.value.hashWith h :=
  (a.distinctKeys.same_of_equal hequal).hashWith_eq hh a.distinctKeys b.distinctKeys

/-! ## Sets -/

/-- One tree of each class of equal trees in a list, and no more than one. -/
structure Represents (reps values : List Tree) : Prop where
  apart : reps.Pairwise fun a b => ¬ a ≈ b
  subset : reps ⊆ values
  covers : ∀ v ∈ values, ∃ w ∈ reps, w ≈ v

/-- A tree is left out if one in the set is equal to it, and then only. -/
theorem insertDistinct_eq (hh : h.RespectsNumbers) (set : List Tree) (v : Tree) :
    (∃ w ∈ set, w ≈ v) ∧ insertDistinct h (set.map Tree.value) v.value = set.map Tree.value ∨
    (∀ w ∈ set, ¬ w ≈ v) ∧
      insertDistinct h (set.map Tree.value) v.value = (set ++ [v]).map Tree.value := by
  have hany : ((set.map Tree.value).any fun w =>
      w.hashWith h == v.value.hashWith h && w.equal v.value) = true ↔ ∃ w ∈ set, w ≈ v := by
    rw [List.any_map, List.any_eq_true]
    refine exists_congr fun w => and_congr_right fun _ => ?_
    -- comparing the hashes first rules out no tree that is equal
    rw [Function.comp_apply, Bool.and_eq_true, beq_iff_eq]
    exact ⟨fun h => h.2, fun hequal => ⟨hashWith_eq_of_equiv hh hequal, hequal⟩⟩
  by_cases hin : ∃ w ∈ set, w ≈ v
  · exact .inl ⟨hin, by rw [insertDistinct, if_pos (hany.mpr hin)]⟩
  · refine .inr ⟨fun w hw hv => hin ⟨w, hw, hv⟩, ?_⟩
    rw [insertDistinct, if_neg (mt hany.mp hin), List.map_append]
    rfl

/-- **What putting a tree into a set keeps.** -/
theorem Represents.insertDistinct (hh : h.RespectsNumbers) {reps values : List Tree}
    (hr : Represents reps values) (v : Tree) :
    ∃ reps', Value.insertDistinct h (reps.map Tree.value) v.value = reps'.map Tree.value ∧
      Represents reps' (values ++ [v]) := by
  obtain ⟨⟨w, hw, hwv⟩, hset⟩ | ⟨hnone, hset⟩ := insertDistinct_eq hh reps v
  · refine ⟨reps, hset, hr.apart, fun u hu => List.mem_append_left _ (hr.subset hu), ?_⟩
    intro u hu
    rcases List.mem_append.mp hu with hu | hu
    · exact hr.covers u hu
    · obtain rfl := List.mem_singleton.mp hu
      exact ⟨w, hw, hwv⟩
  · refine ⟨reps ++ [v], hset, ?_, ?_, ?_⟩
    · refine List.pairwise_append.mpr ⟨hr.apart, List.pairwise_singleton _ _, ?_⟩
      intro w hw u hu
      obtain rfl := List.mem_singleton.mp hu
      exact hnone w hw
    · exact List.append_subset.mpr ⟨fun u hu => List.mem_append_left _ (hr.subset hu),
        List.subset_append_right _ _⟩
    · intro u hu
      rcases List.mem_append.mp hu with hu | hu
      · obtain ⟨w, hw, hwu⟩ := hr.covers u hu
        exact ⟨w, List.mem_append_left _ hw, hwu⟩
      · exact ⟨u, List.mem_append_right _ hu, Setoid.refl u⟩

/-- **A set holds one tree of each class of those that were put into it.** -/
theorem exists_represents_distinct (hh : h.RespectsNumbers) (values : List Tree) :
    ∃ reps, distinct h (values.map Tree.value) = reps.map Tree.value ∧
      Represents reps values := by
  induction values using List.reverseRecOn with
  | nil => exact ⟨[], rfl, .nil, List.Subset.refl _, by simp⟩
  | append_singleton values v ih =>
    obtain ⟨reps, hset, hr⟩ := ih
    obtain ⟨reps', hset', hr'⟩ := hr.insertDistinct hh v
    refine ⟨reps', ?_, hr'⟩
    rw [← hset', ← hset, distinct, distinct, List.map_append, List.foldl_append]
    rfl

/-- The classes of equal trees among those in a list. -/
def classes (values : List Tree) : Set (Quotient Tree.setoid) :=
  {c | ∃ v ∈ values, ⟦v⟧ = c}

open Classical in
theorem Represents.length_eq {reps values : List Tree} (hr : Represents reps values) :
    reps.length = (classes values).ncard := by
  have hnodup : (reps.map (Quotient.mk Tree.setoid)).Nodup :=
    List.pairwise_map.mpr (hr.apart.imp fun hne heq => hne (Quotient.exact heq))
  have hclasses : classes values = (reps.map (Quotient.mk Tree.setoid)).toFinset := by
    ext c
    rw [List.coe_toFinset, Set.mem_ofPred_eq, List.mem_map]
    constructor
    · rintro ⟨v, hv, rfl⟩
      obtain ⟨w, hw, hwv⟩ := hr.covers v hv
      exact ⟨w, hw, Quotient.sound hwv⟩
    · rintro ⟨w, hw, rfl⟩
      exact ⟨w, hr.subset hw, rfl⟩
  rw [hclasses, Set.ncard_coe_finset, List.toFinset_card_of_nodup hnodup, List.length_map]

theorem classes_eq_of_perm {order values : List Tree} (hperm : order.Perm values) :
    classes order = classes values := by
  ext c
  exact exists_congr fun v => and_congr_left fun _ => hperm.mem_iff

/-- **Equality of values, and what goes with it.**  On the values in whose objects no key
occurs twice, equality is an equivalence relation, and it says that they are the same: numbers
as numbers, objects as finite maps, arrays place by place, and no two kinds.  A hash for which
the numbers that decimals stand for are enough takes equal values to the same hash; and a set
has as many values as there are classes of equal ones among those that were put into it, in
whatever order they were. -/
theorem equality_laws (h : Hashing) (hh : h.RespectsNumbers) :
    Equivalence (fun a b : Tree => a.value.equal b.value = true) ∧
    (∀ a b : Tree, a.value.equal b.value = true ↔ a.value.Same b.value) ∧
    (∀ a b : Tree, a.value.equal b.value = true → a.value.hashWith h = b.value.hashWith h) ∧
    ∀ order values : List Tree, order.Perm values →
      (distinct h (order.map Tree.value)).length = (classes values).ncard := by
  refine ⟨equal_equivalence, fun a b => equal_iff_same a.distinctKeys b.distinctKeys,
    fun a b hequal => hashWith_eq_of_equiv hh hequal, fun order values hperm => ?_⟩
  obtain ⟨reps, hset, hr⟩ := exists_represents_distinct hh order
  rw [hset, List.length_map, hr.length_eq, classes_eq_of_perm hperm]

/-- An object with two members. -/
def sampleObject : Tree where
  value := .object [("two", .number { coefficient := 2 }), ("nothing", .null)]
  distinctKeys := .object (by decide) fun m hm => by
    rcases List.mem_pair.mp hm with rfl | rfl
    · exact .number _
    · exact .null

/-- The same object, with its members the other way round and `2.0` for `2`. -/
def reorderedObject : Tree where
  value := .object [("nothing", .null), ("two", .number { coefficient := 20, exponent := -1 })]
  distinctKeys := .object (by decide) fun m hm => by
    rcases List.mem_pair.mp hm with rfl | rfl
    · exact .null
    · exact .number _

/-- The two objects have the same hash, and a set of both has one value. -/
theorem reorderedObject_equality_laws :
    Hashing.standard.RespectsNumbers ∧
      sampleObject.value.hashWith .standard = reorderedObject.value.hashWith .standard ∧
      [reorderedObject, sampleObject].Perm [sampleObject, reorderedObject] ∧
      (distinct .standard [reorderedObject.value, sampleObject.value]).length = 1 := by
  have hperm : [reorderedObject, sampleObject].Perm [sampleObject, reorderedObject] :=
    .swap ..
  have hnumber : Decimal.sameValue { coefficient := 2 } { coefficient := 20, exponent := -1 }
      = true := by
    rw [Decimal.sameValue_iff_toRat_eq]
    norm_num [Decimal.toRat]
  have hequal : sampleObject.value.equal reorderedObject.value = true := by
    simp [sampleObject, reorderedObject, equal, equalMembers, Members.find?, hnumber]
  have hclass : (⟦sampleObject⟧ : Quotient Tree.setoid) = ⟦reorderedObject⟧ :=
    Quotient.sound hequal
  have hone : (classes [sampleObject, reorderedObject]).ncard = 1 := by
    refine Set.ncard_eq_one.mpr ⟨⟦sampleObject⟧, ?_⟩
    ext c
    simp [classes, hclass, eq_comm]
  obtain ⟨-, -, hhash, hset⟩ := equality_laws .standard Hashing.standard_respectsNumbers
  exact ⟨Hashing.standard_respectsNumbers, hhash _ _ hequal, hperm, (hset _ _ hperm).trans hone⟩

end Value
end Json
end Descent
