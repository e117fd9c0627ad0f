import Descent.Json.Value
import Mathlib.Data.List.Forall2
import Mathlib.Data.List.Induction
import Mathlib.Data.List.Nodup
import Mathlib.Data.List.Perm.Subperm

/-!
# Members with distinct keys

The members of an object are a list of pairs in which no key occurs twice.  Giving a key its
value keeps this, so every list of pairs denotes such a list, with no member that was not
among the pairs: a key stands where it came first, with the value that came last.  A list in
which no key occurs twice denotes itself.

Such a list is a finite map: its members are what is found, and two of them that find the same
values for the same keys are the same up to order.
-/

namespace Descent
namespace Json
namespace Members

variable {α β : Type}

/-- The keys of a list of members. -/
def keys (members : List (String × α)) : List String := members.map Prod.fst

@[simp] theorem keys_nil : keys ([] : List (String × α)) = [] := rfl

@[simp] theorem keys_cons (member : String × α) (members : List (String × α)) :
    keys (member :: members) = member.1 :: keys members := rfl

/-! ## Giving keys their values -/

/-- The keys after a key is given its value: no key is moved, and a new one comes last. -/
theorem keys_put (key : String) (value : α) (members : List (String × α)) :
    keys (put key value members)
      = if key ∈ keys members then keys members else keys members ++ [key] := by
  induction members with
  | nil => simp [put]
  | cons member rest ih =>
    by_cases h : member.1 = key
    · subst h
      simp [put]
    · by_cases hm : key ∈ keys rest <;> simp_all [put, eq_comm]

theorem nodup_keys_put {members : List (String × α)} (h : (keys members).Nodup)
    (key : String) (value : α) : (keys (put key value members)).Nodup := by
  rw [keys_put]
  split
  · exact h
  · next hkey =>
    rw [List.nodup_append]
    refine ⟨h, List.nodup_singleton key, ?_⟩
    rintro k hk k' hk' rfl
    rw [List.mem_singleton] at hk'
    subst hk'
    exact hkey hk

/-- What is a member afterwards was one before, or is the pair that was put. -/
theorem mem_put {member : String × α} {key : String} {value : α}
    {members : List (String × α)} (h : member ∈ put key value members) :
    member = (key, value) ∨ member ∈ members := by
  induction members with
  | nil => exact Or.inl (List.mem_singleton.mp h)
  | cons m rest ih =>
    rw [put] at h
    split at h
    · rcases List.mem_cons.mp h with rfl | h
      · exact Or.inl rfl
      · exact Or.inr (List.mem_cons_of_mem _ h)
    · rcases List.mem_cons.mp h with rfl | h
      · exact Or.inr (List.mem_cons_self ..)
      · exact (ih h).imp_right (List.mem_cons_of_mem _)

/-- A new key is put at the end. -/
theorem put_of_not_mem {key : String} {members : List (String × α)}
    (h : key ∉ keys members) (value : α) :
    put key value members = members ++ [(key, value)] := by
  induction members with
  | nil => rfl
  | cons m rest ih =>
    rw [keys_cons, List.mem_cons, not_or] at h
    rw [put, if_neg (Ne.symm h.1), ih h.2, List.cons_append]

/-! ## The members that pairs denote -/

/-- The last pair is put behind the others. -/
theorem ofPairs_concat (pairs : List (String × α)) (pair : String × α) :
    ofPairs (pairs ++ [pair]) = put pair.1 pair.2 (ofPairs pairs) := by
  rw [ofPairs, List.foldl_append]
  rfl

/-- A key has the value of the last pair with that key. -/
theorem find?_ofPairs (key : String) (pairs : List (String × α)) :
    find? key (ofPairs pairs) = find? key pairs.reverse := by
  induction pairs using List.reverseRecOn with
  | nil => rfl
  | append_singleton pairs pair ih =>
    rw [ofPairs_concat, find?_put, ih, List.reverse_append, List.reverse_singleton,
      List.singleton_append, find?_cons]

/-- The keys stand in the order of their first pairs, each of them once. -/
theorem keys_ofPairs (pairs : List (String × α)) :
    keys (ofPairs pairs) = (keys pairs).eraseDups := by
  induction pairs using List.reverseRecOn with
  | nil => rfl
  | append_singleton pairs pair ih =>
    have hkeys : keys (pairs ++ [pair]) = keys pairs ++ [pair.1] := List.map_append
    rw [ofPairs_concat, keys_put, hkeys, List.eraseDups_append, ← ih]
    -- the last key is a new one or not, and both sides tell it from the keys before
    have hmem : pair.1 ∈ keys (ofPairs pairs) ↔ pair.1 ∈ keys pairs := by
      rw [ih, List.mem_eraseDups]
    by_cases hkey : pair.1 ∈ keys pairs
    · rw [if_pos (hmem.mpr hkey)]
      simp [List.removeAll, hkey]
    · rw [if_neg (mt hmem.mp hkey)]
      simp [List.removeAll, hkey, List.eraseDups_cons]

/-- **Pairs denote members with distinct keys, all of them among the pairs.** -/
theorem nodup_keys_ofPairs (pairs : List (String × α)) :
    (keys (ofPairs pairs)).Nodup ∧ ∀ member ∈ ofPairs pairs, member ∈ pairs := by
  induction pairs using List.reverseRecOn with
  | nil => exact ⟨List.nodup_nil, fun member hm => hm⟩
  | append_singleton pairs pair ih =>
    obtain ⟨hnodup, hmem⟩ := ih
    rw [ofPairs_concat]
    refine ⟨nodup_keys_put hnodup pair.1 pair.2, fun member hm => ?_⟩
    rcases mem_put hm with rfl | hm
    · exact List.mem_append_right _ (List.mem_singleton_self _)
    · exact List.mem_append_left _ (hmem member hm)

/-- **Pairs with distinct keys denote themselves.** -/
theorem ofPairs_of_nodup {pairs : List (String × α)} (h : (keys pairs).Nodup) :
    ofPairs pairs = pairs := by
  induction pairs using List.reverseRecOn with
  | nil => rfl
  | append_singleton pairs pair ih =>
    have hkeys : keys (pairs ++ [pair]) = keys pairs ++ [pair.1] := List.map_append
    rw [hkeys, List.nodup_append] at h
    obtain ⟨hnodup, -, hdisjoint⟩ := h
    have hkey : pair.1 ∉ keys pairs := fun hk =>
      hdisjoint _ hk _ (List.mem_singleton_self _) rfl
    rw [ofPairs_concat, ih hnodup, put_of_not_mem hkey]

/-! ## Finding -/

/-- A key that no member has is not found. -/
theorem find?_eq_none {key : String} {members : List (String × α)}
    (h : key ∉ keys members) : find? key members = none := by
  induction members with
  | nil => rfl
  | cons m rest ih =>
    rw [keys_cons, List.mem_cons, not_or] at h
    rw [find?_cons, if_neg (Ne.symm h.1), ih h.2]

/-- What is found is a member. -/
theorem mem_of_find? {key : String} {a : α} {members : List (String × α)}
    (h : find? key members = some a) : (key, a) ∈ members := by
  induction members with
  | nil => cases h
  | cons m rest ih =>
    rw [find?_cons] at h
    split at h
    · next hkey =>
      obtain rfl := Option.some_inj.mp h
      rw [← hkey]
      exact List.mem_cons_self
    · exact List.mem_cons_of_mem _ (ih h)

/-- A key is found if a member has it. -/
theorem exists_find?_iff {key : String} {members : List (String × α)} :
    (∃ a, find? key members = some a) ↔ key ∈ keys members := by
  constructor
  · rintro ⟨a, h⟩
    exact List.mem_map.mpr ⟨_, mem_of_find? h, rfl⟩
  · intro h
    induction members with
    | nil => cases h
    | cons m rest ih =>
      rw [find?_cons]
      split
      · exact ⟨_, rfl⟩
      · next hne => exact ih ((List.mem_cons.mp h).resolve_left (Ne.symm hne))

/-- If no key occurs twice, then the members are what is found. -/
theorem find?_eq_some_iff {key : String} {a : α} {members : List (String × α)}
    (hnodup : (keys members).Nodup) : find? key members = some a ↔ (key, a) ∈ members := by
  refine ⟨mem_of_find?, fun h => ?_⟩
  induction members with
  | nil => cases h
  | cons m rest ih =>
    rw [keys_cons, List.nodup_cons] at hnodup
    rcases List.mem_cons.mp h with rfl | h
    · rw [find?_cons, if_pos rfl]
    · have hne : m.1 ≠ key := by
        rintro rfl
        exact hnodup.1 (List.mem_map.mpr ⟨_, h, rfl⟩)
      rw [find?_cons, if_neg hne]
      exact ih hnodup.2 h

/-- If two lists of members have the same keys in order and values that are related, and the
keys of the second are distinct, then each key of the first finds a related value in the
second. -/
theorem exists_find?_of_forall₂ {R : α → β → Prop} {as : List (String × α)}
    {bs : List (String × β)}
    (h : List.Forall₂ (fun a b => a.1 = b.1 ∧ R a.2 b.2) as bs) (hb : (keys bs).Nodup) :
    ∀ a ∈ as, ∃ b, find? a.1 bs = some b ∧ R a.2 b := by
  induction h with
  | nil => exact fun a ha => absurd ha (by simp)
  | @cons a b as bs hab h ih =>
    rw [keys_cons, List.nodup_cons] at hb
    intro x hx
    rcases List.mem_cons.mp hx with rfl | hx
    · exact ⟨b.2, by rw [find?_cons, if_pos hab.1.symm], hab.2⟩
    · obtain ⟨y, hy, hR⟩ := ih hb.2 x hx
      have hne : b.1 ≠ x.1 := by
        intro heq
        rw [heq] at hb
        exact hb.1 (exists_find?_iff.mp ⟨y, hy⟩)
      exact ⟨y, by rw [find?_cons, if_neg hne, hy], hR⟩

/-! ## The same keys -/

section SameKeys

variable {as : List (String × α)} {bs : List (String × β)}

/-- Distinct keys that all occur in another list, which is no longer, are the keys of it. -/
theorem mem_keys_iff_of_subset (hnodup : (keys as).Nodup) (hlength : bs.length ≤ as.length)
    (h : keys as ⊆ keys bs) (key : String) : key ∈ keys as ↔ key ∈ keys bs := by
  have hperm : (keys as).Perm (keys bs) := by
    refine (hnodup.subperm h).perm_of_length_le ?_
    rw [keys, keys, List.length_map, List.length_map]
    exact hlength
  exact hperm.mem_iff

/-- Two lists of the same distinct keys have the same length. -/
theorem length_eq_of_mem_keys_iff (ha : (keys as).Nodup) (hb : (keys bs).Nodup)
    (h : ∀ key, key ∈ keys as ↔ key ∈ keys bs) : as.length = bs.length := by
  have hperm := (List.perm_ext_iff_of_nodup ha hb).mpr h
  simpa [keys] using hperm.length_eq

end SameKeys

/-- Lists of distinct keys that find the same are the same up to order. -/
theorem perm_of_find?_eq {as bs : List (String × α)} (ha : (keys as).Nodup)
    (hb : (keys bs).Nodup) (h : ∀ key, find? key as = find? key bs) : as.Perm bs := by
  rw [List.perm_ext_iff_of_nodup ha.of_map hb.of_map]
  rintro ⟨key, a⟩
  rw [← find?_eq_some_iff ha, ← find?_eq_some_iff hb, h]

/-! ## Other values for the keys -/

theorem keys_map (f : α → β) (members : List (String × α)) :
    keys (members.map fun m => (m.1, f m.2)) = keys members := by
  rw [keys, List.map_map]
  rfl

theorem find?_map (f : α → β) (key : String) (members : List (String × α)) :
    find? key (members.map fun m => (m.1, f m.2)) = (find? key members).map f := by
  induction members with
  | nil => rfl
  | cons m rest ih =>
    rw [List.map_cons, find?_cons, find?_cons, ih, apply_ite (Option.map f)]
    rfl

/-- Members with the same keys, and with values that a function does not tell apart, are the
same up to order after the function. -/
theorem map_perm_of_find? (f : α → β) {as bs : List (String × α)} (ha : (keys as).Nodup)
    (hb : (keys bs).Nodup) (hkeys : ∀ key, key ∈ keys as ↔ key ∈ keys bs)
    (hvalues : ∀ key a b, find? key as = some a → find? key bs = some b → f a = f b) :
    (as.map fun m => (m.1, f m.2)).Perm (bs.map fun m => (m.1, f m.2)) := by
  refine perm_of_find?_eq ?_ ?_ fun key => ?_
  · rwa [keys_map f]
  · rwa [keys_map f]
  · rw [find?_map f, find?_map f]
    by_cases hkey : key ∈ keys as
    · obtain ⟨a, hfind⟩ := exists_find?_iff.mpr hkey
      obtain ⟨b, hfind'⟩ := exists_find?_iff.mpr ((hkeys key).mp hkey)
      rw [hfind, hfind', Option.map_some, Option.map_some, hvalues key a b hfind hfind']
    · rw [find?_eq_none hkey, find?_eq_none (mt (hkeys key).mpr hkey)]

end Members
end Json
end Descent
