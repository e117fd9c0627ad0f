import Descent.Proofs.Json.Lookup
import Descent.Proofs.Number.Positional
import Mathlib.Algebra.Group.Nat.Defs

/-!
# Paths and addresses

An address says where a node of a value is: it is a list of steps, and a step goes from an
object to the value of a key, or from an array to the item of an index.  An address is written
as a path, with dots between its steps and each index in decimal.

Following the path of an address leads to the node at the address, if no key in it holds a dot
and the arrays on the way are not so long that an index of theirs could not be read.  A path
that leads to a node is the text of an address of this node, though an index in it may have
zeros before its digits.  Whether a segment is a key or an index is not seen from the segment:
at an object a numeral is a key.
-/

namespace Descent
namespace Json

/-! ## Segments -/

namespace Path

/-- Segments without dots are what a text with dots between them is split into. -/
theorem splitDots_intercalate {parts : List (List Char)} (hne : parts ≠ [])
    (h : ∀ s ∈ parts, '.' ∉ s) : splitDots (['.'].intercalate parts) = parts := by
  induction parts with
  | nil => exact absurd rfl hne
  | cons s rest ih =>
    obtain ⟨hs, hrest⟩ := List.forall_mem_cons.mp h
    cases rest with
    | nil => rw [List.intercalate_singleton, splitDots_of_not_mem hs]
    | cons s' rest =>
      rw [List.intercalate_cons_cons, List.append_assoc, List.singleton_append,
        splitDots_append_dot, splitDots_of_not_mem hs, ih (List.cons_ne_nil _ _) hrest,
        List.singleton_append]

/-- The segments of a text have no dots, and with dots between them they are the text. -/
theorem intercalate_splitDots (l : List Char) :
    ['.'].intercalate (splitDots l) = l ∧ ∀ s ∈ splitDots l, '.' ∉ s := by
  induction l with
  | nil => exact ⟨rfl, by simp [splitDots]⟩
  | cons ch l ih =>
    obtain ⟨segment, rest, hsplit⟩ := List.exists_cons_of_ne_nil (splitDots_ne_nil l)
    rw [hsplit, List.forall_mem_cons] at ih
    obtain ⟨hjoin, hsegment, hrest⟩ := ih
    by_cases hch : ch = '.'
    · subst hch
      rw [splitDots, if_pos rfl, hsplit, List.intercalate_cons_cons, hjoin]
      refine ⟨rfl, ?_⟩
      simpa using ⟨hsegment, hrest⟩
    · have hcons : splitDots (ch :: l) = (ch :: segment) :: rest := by
        rw [splitDots, if_neg hch, hsplit]
      rw [hcons, List.forall_mem_cons]
      refine ⟨?_, ?_, hrest⟩
      · rw [← hjoin]
        cases rest with
        | nil => simp
        | cons s rest => simp [List.intercalate_cons_cons]
      · simpa using ⟨Ne.symm hch, hsegment⟩

theorem segments_intercalate {parts : List String} (hne : parts ≠ [])
    (h : ∀ s ∈ parts, '.' ∉ s.toList) : segments (".".intercalate parts) = parts := by
  have hne' : parts.map String.toList ≠ [] := by simpa using hne
  have hsplit := splitDots_intercalate hne' (by simpa using h)
  rw [segments, String.toList_intercalate]
  show (splitDots (['.'].intercalate _)).map String.ofList = parts
  rw [hsplit, List.map_map, show String.ofList ∘ String.toList = id from
    funext fun s => String.ofList_toList, List.map_id]

theorem intercalate_segments (path : String) :
    ".".intercalate (segments path) = path ∧ ∀ s ∈ segments path, '.' ∉ s.toList := by
  obtain ⟨hjoin, hdots⟩ := intercalate_splitDots path.toList
  constructor
  · rw [← String.toList_inj, String.toList_intercalate, segments, List.map_map,
      show String.toList ∘ String.ofList = id from funext fun l => String.toList_ofList,
      List.map_id]
    exact hjoin
  · intro s hs
    obtain ⟨l, hl, rfl⟩ := List.mem_map.mp hs
    rw [String.toList_ofList]
    exact hdots l hl

end Path

/-! ## Steps -/

/-- A step from a value to one of its parts. -/
inductive Step where
  /-- To the value of a key of an object. -/
  | key (name : String)
  /-- To an item of an array, by how many stand before it. -/
  | index (i : Nat)

namespace Step

/-- The segment that a step is written as. -/
def segment : Step → String
  | .key name => name
  | .index i => toString i

/-- The segments that a step is read from: a key from itself, and an index from its decimal
digits with any number of zeros before them. -/
def ReadFrom : Step → String → Prop
  | .key name, s => s = name
  | .index i, s => ∃ zeros, s.toList = List.replicate zeros '0' ++ (toString i).toList

theorem toList_segment_index (i : Nat) :
    (segment (.index i)).toList = Decimal.digitsOf i := by
  rw [segment, Nat.toString_eq_ofList_toDigits, String.toList_ofList]
  rfl

/-- The digits of an index hold no dot. -/
theorem dot_not_mem_segment_index (i : Nat) : '.' ∉ (segment (.index i)).toList := by
  rw [toList_segment_index]
  intro h
  have := Nat.isDigit_of_mem_toDigits (by decide) (by decide) h
  exact absurd this (by decide)

end Step

namespace Value

/-- The part that a step leads to. -/
inductive StepsTo : Value → Step → Value → Prop where
  | key {members : List (String × Value)} {name : String} {w : Value}
      (h : Members.find? name members = some w) : StepsTo (.object members) (.key name) w
  | index {items : List Value} {i : Nat} {w : Value} (h : items[i]? = some w) :
      StepsTo (.array items) (.index i) w

/-- The node that an address leads to. -/
inductive LeadsTo : Value → List Step → Value → Prop where
  | here (v : Value) : LeadsTo v [] v
  | step {v u w : Value} {step : Step} {address : List Step} (h : v.StepsTo step u)
      (hrest : LeadsTo u address w) : LeadsTo v (step :: address) w

/-- Every array in a value is so short that the indexes of its items can be read. -/
def IndexesReadable (v : Value) : Prop :=
  ∀ items, v.Node (.array items) → items.length < 10 ^ Numeral.maxDigits

variable {v w : Value} {step : Step} {address : List Step} {segment : String}
  {segments : List String}

theorem StepsTo.hasPart (h : v.StepsTo step w) : v.HasPart w := by
  cases h with
  | key h => exact .member (Members.mem_of_find? h)
  | index h => exact .item (List.mem_of_getElem? h)

theorem IndexesReadable.part (h : v.IndexesReadable) (hw : v.HasPart w) : w.IndexesReadable :=
  fun items hitems => h items (.head hw hitems)

theorem indexesReadable_of_parts
    (h : ∀ items, v = .array items → items.length < 10 ^ Numeral.maxDigits)
    (hparts : ∀ w, v.HasPart w → w.IndexesReadable) : v.IndexesReadable := by
  intro items hitems
  rcases Relation.ReflTransGen.cases_head hitems with rfl | ⟨w, hw, hrest⟩
  · exact h items rfl
  · exact hparts w hw items hrest

/-! ## One segment and one step -/

/-- The segment of a step names the part that the step leads to. -/
theorem StepsTo.part_segment (h : v.StepsTo step w) (hv : v.IndexesReadable) :
    v.part step.segment = .ok w := by
  cases h with
  | key h => rw [part, Step.segment, h]
  | @index items i _ h =>
    have hlt : i < 10 ^ Numeral.maxDigits :=
      Nat.lt_trans (List.getElem?_eq_some_iff.mp h).1 (hv items .refl)
    have hshort : (Decimal.digitsOf i).length ≤ Numeral.maxDigits :=
      (Nat.length_toDigits_le_iff (by decide) (by decide)).mpr hlt
    have hnumeral : Numeral.isNumeral (Decimal.digitsOf i) = true :=
      Numeral.isNumeral_digitsOf i
    rw [part, Step.toList_segment_index, if_pos hnumeral, Numeral.read,
      if_neg (Nat.not_lt.mpr hshort), Numeral.value_digitsOf]
    simp only [h]

/-- A segment that names a part is read as a step to this part. -/
theorem exists_stepsTo_of_part (h : v.part segment = .ok w) :
    ∃ step : Step, step.ReadFrom segment ∧ v.StepsTo step w := by
  cases v with
  | object members =>
    rw [part] at h
    split at h
    · next hw =>
      obtain rfl := Except.ok.inj h
      exact ⟨.key segment, rfl, .key hw⟩
    · cases h
  | array items =>
    rw [part] at h
    split at h
    · next hnumeral =>
      obtain ⟨zeros, hzeros⟩ := Numeral.exists_zeros_append hnumeral
      split at h
      · cases h
      · next i hread =>
        split at h
        · next hw =>
          obtain rfl := Except.ok.inj h
          refine ⟨.index i, ⟨zeros, ?_⟩, .index hw⟩
          show _ = _ ++ (Step.segment (.index i)).toList
          rw [Step.toList_segment_index, ← Numeral.value_of_read hread]
          exact hzeros
        · cases h
    · cases h
  | _ => cases h

/-! ## Paths and addresses -/

theorem LeadsTo.follow (h : v.LeadsTo address w) (hv : v.IndexesReadable) :
    v.follow (address.map Step.segment) = .ok w := by
  induction h with
  | here v => rfl
  | step h _ ih =>
    rw [List.map_cons, Value.follow, h.part_segment hv]
    exact ih (hv.part h.hasPart)

theorem exists_leadsTo_of_follow (h : v.follow segments = .ok w) :
    ∃ address, List.Forall₂ Step.ReadFrom address segments ∧ v.LeadsTo address w := by
  induction segments generalizing v with
  | nil =>
    obtain rfl := Except.ok.inj h
    exact ⟨[], .nil, .here v⟩
  | cons segment segments ih =>
    rw [Value.follow] at h
    cases hpart : v.part segment with
    | error e =>
      rw [hpart] at h
      cases h
    | ok u =>
      rw [hpart] at h
      obtain ⟨step, hread, hstep⟩ := exists_stepsTo_of_part hpart
      obtain ⟨address, hall, hleads⟩ := ih h
      exact ⟨step :: address, .cons hread hall, .step hstep hleads⟩

/-- **Paths address nodes.**  If the indexes in a value can be read, the path of an address
other than the empty one leads to the node at the address, provided that no key in the address
holds a dot.  Conversely, wherever a path leads to a node, the segments between its dots, read
as keys at objects and as numerals at arrays, are an address of this node. -/
theorem get_addresses (v : Value) :
    (v.IndexesReadable → ∀ address w, address ≠ [] → v.LeadsTo address w →
      (∀ name, Step.key name ∈ address → '.' ∉ name.toList) →
      v.get (".".intercalate (address.map Step.segment)) = .ok w) ∧
    ∀ path w, v.get path = .ok w → ∃ address segments,
      path = ".".intercalate segments ∧ (∀ s ∈ segments, '.' ∉ s.toList) ∧
      List.Forall₂ Step.ReadFrom address segments ∧ address ≠ [] ∧ v.LeadsTo address w := by
  constructor
  · intro hv address w hne hleads hkeys
    have hdots : ∀ s ∈ address.map Step.segment, '.' ∉ s.toList := by
      intro s hs
      obtain ⟨step, hstep, rfl⟩ := List.mem_map.mp hs
      cases step with
      | key name => exact hkeys name hstep
      | index i => exact Step.dot_not_mem_segment_index i
    rw [get, Path.segments_intercalate (by simpa using hne) hdots]
    exact hleads.follow hv
  · intro path w h
    obtain ⟨hjoin, hdots⟩ := Path.intercalate_segments path
    obtain ⟨address, hread, hleads⟩ := exists_leadsTo_of_follow h
    refine ⟨address, Path.segments path, hjoin.symm, hdots, hread, ?_, hleads⟩
    rintro rfl
    have hnil : Path.segments path = [] := List.forall₂_nil_left_iff.mp hread
    exact Path.splitDots_ne_nil path.toList (List.map_eq_nil_iff.mp hnil)

/-- An object with an array, in which an object has an empty key. -/
def sampleTree : Value :=
  .object [("0", .null), ("list", .array [.null, .object [("", .bool true)]])]

/-- In the path of a node the numeral `1` is an index, and the last segment is empty. -/
theorem sampleTree_get_addresses :
    sampleTree.IndexesReadable ∧
      sampleTree.LeadsTo [.key "list", .index 1, .key ""] (.bool true) ∧
      sampleTree.get (".".intercalate ["list", toString 1, ""]) = .ok (.bool true) ∧
      ∃ address segments, "list.01." = ".".intercalate segments ∧
        (∀ s ∈ segments, '.' ∉ s.toList) ∧ List.Forall₂ Step.ReadFrom address segments ∧
        address ≠ [] ∧ sampleTree.LeadsTo address (.bool true) := by
  have hnull : null.IndexesReadable := indexesReadable_of_parts nofun nofun
  have hbool : (bool true).IndexesReadable := indexesReadable_of_parts nofun nofun
  have hinner : (object [("", bool true)]).IndexesReadable :=
    indexesReadable_of_parts nofun fun w hw => by
      cases hw with
      | member h =>
        obtain rfl := (Prod.mk.inj (List.mem_singleton.mp h)).2
        exact hbool
  have hlist : (array [.null, .object [("", .bool true)]]).IndexesReadable := by
    refine indexesReadable_of_parts (fun items h => ?_) fun w hw => ?_
    · obtain rfl := Value.array.inj h
      exact Nat.lt_of_lt_of_le (show 2 < 10 ^ 1 by decide)
        (Nat.pow_le_pow_right (by decide) (by decide))
    · cases hw with
      | item h =>
        rcases List.mem_pair.mp h with rfl | rfl
        · exact hnull
        · exact hinner
  have hreadable : sampleTree.IndexesReadable :=
    indexesReadable_of_parts nofun fun w hw => by
      cases hw with
      | member h =>
        rcases List.mem_pair.mp h with h | h
        · obtain rfl := (Prod.mk.inj h).2
          exact hnull
        · obtain rfl := (Prod.mk.inj h).2
          exact hlist
  have hleads : sampleTree.LeadsTo [.key "list", .index 1, .key ""] (.bool true) :=
    .step (.key rfl) (.step (.index rfl) (.step (.key rfl) (.here _)))
  have hget : sampleTree.get "list.01." = .ok (.bool true) := by rfl
  obtain ⟨hto, hfrom⟩ := get_addresses sampleTree
  have hnode := hto hreadable _ _ (List.cons_ne_nil _ _) hleads (by simp)
  exact ⟨hreadable, hleads, hnode, hfrom _ _ hget⟩

end Value
end Json
end Descent
