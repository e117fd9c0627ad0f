import Descent.Json.Path
import Descent.Proofs.Json.Members
import Mathlib.Logic.Relation

/-!
# What a look-up answers

Following a path goes from a value to one of its parts with each segment, so where it gets to
the end it has come to a node of the value (`Value.node_of_follow`).  Where it does not, it has
come to a node and stopped at the next segment, and the error is the one of this segment at
this node (`Value.follow_eq_error_iff`).

A segment that names nothing is an error with a diagnostic, in every case but one: at an array
a numeral is read as an index before it is compared with the number of items, and one that is
too long to be read is refused for its length (`Value.part_eq_error`).  Such an error has no
diagnostic, although the array has no item of that index either.

A dot between two paths keeps their segments apart, whatever dots the paths themselves begin or
end with.  So the path that they make is followed by following the first from the value and the
second from where it has led, with the error of whichever fails first
(`Value.get_composes`).
-/

namespace Descent
namespace Json

namespace Path

/-- A text without dots is a single segment. -/
theorem splitDots_of_not_mem {s : List Char} (h : '.' ∉ s) : splitDots s = [s] := by
  induction s with
  | nil => rfl
  | cons ch rest ih =>
    rw [List.mem_cons, not_or] at h
    rw [splitDots, if_neg (Ne.symm h.1), ih h.2]

/-- A path behind another one, with a dot between them, has the segments of both. -/
theorem segments_append_dot (p q : String) :
    segments (p ++ "." ++ q) = segments p ++ segments q := by
  have hdot : (p ++ "." ++ q).toList = p.toList ++ '.' :: q.toList := by
    rw [String.toList_append, String.toList_append, List.append_assoc]
    rfl
  rw [segments, hdot, splitDots_append_dot, List.map_append]
  rfl

end Path

namespace Value

/-- An array has its items for parts, and an object the values of its members. -/
inductive HasPart : Value → Value → Prop where
  | item {items : List Value} {w : Value} (h : w ∈ items) : HasPart (.array items) w
  | member {members : List (String × Value)} {key : String} {w : Value}
      (h : (key, w) ∈ members) : HasPart (.object members) w

/-- A node of a value is the value itself, or a node of one of its parts. -/
abbrev Node (v w : Value) : Prop := Relation.ReflTransGen HasPart v w

/-- On its way a path comes to an array with a numeral that is too long to be read. -/
def MeetsLongIndex (v : Value) (path : String) : Prop :=
  ∃ before segment after items, Path.segments path = before ++ segment :: after ∧
    v.follow before = .ok (.array items) ∧ Numeral.isNumeral segment.toList = true ∧
    Numeral.maxDigits < segment.toList.length

variable {v w : Value} {segment : String} {segments : List String} {e : PathError}

/-! ## One segment -/

theorem hasPart_of_part (h : v.part segment = .ok w) : HasPart v w := by
  cases v with
  | object members =>
    rw [part] at h
    cases hw : Members.find? segment members with
    | none =>
      rw [hw] at h
      cases h
    | some w' =>
      rw [hw] at h
      obtain rfl := Except.ok.inj h
      exact .member (Members.mem_of_find? hw)
  | array items =>
    rw [part] at h
    split at h
    · split at h
      · cases h
      · split at h
        · next hw =>
          obtain rfl := Except.ok.inj h
          exact .item (List.mem_of_getElem? hw)
        · cases h
    · cases h
  | _ => cases h

/-- A segment that names nothing is not found or met by a value without parts, or it is a
numeral that is too long to be read, at an array. -/
theorem part_eq_error (h : v.part segment = .error e) :
    e = .notFound segment v.kind ∨ e = .throughScalar segment v.kind ∨
      ∃ items, v = .array items ∧ Numeral.isNumeral segment.toList = true ∧
        Numeral.maxDigits < segment.toList.length ∧
        e = .indexTooLong ⟨segment.toList.length⟩ := by
  cases v with
  | object members =>
    rw [part] at h
    split at h
    · cases h
    · exact .inl (Except.error.inj h).symm
  | array items =>
    rw [part] at h
    split at h
    · next hnumeral =>
      unfold Numeral.read at h
      split at h
      · next heq =>
        split at heq
        · next hlong =>
          obtain rfl := Except.error.inj heq
          exact .inr (.inr ⟨items, rfl, hnumeral, hlong, (Except.error.inj h).symm⟩)
        · cases heq
      · split at h
        · cases h
        · exact .inl (Except.error.inj h).symm
    · exact .inl (Except.error.inj h).symm
  | _ => exact .inr (.inl (Except.error.inj h).symm)

theorem part_of_long_index (items : List Value)
    (hnumeral : Numeral.isNumeral segment.toList = true)
    (hlong : Numeral.maxDigits < segment.toList.length) :
    (array items).part segment = .error (.indexTooLong ⟨segment.toList.length⟩) := by
  rw [part, if_pos hnumeral, Numeral.read, if_pos hlong]

/-! ## All segments -/

theorem node_of_follow (h : v.follow segments = .ok w) : v.Node w := by
  induction segments generalizing v with
  | nil =>
    obtain rfl := Except.ok.inj h
    exact .refl
  | cons segment segments ih =>
    rw [follow] at h
    cases hpart : v.part segment with
    | ok u =>
      rw [hpart] at h
      exact .head (hasPart_of_part hpart) (ih h)
    | error e =>
      rw [hpart] at h
      cases h

/-- A path fails where it has come to a node that the next segment fails at. -/
theorem follow_eq_error_iff :
    v.follow segments = .error e ↔ ∃ before segment after w,
      segments = before ++ segment :: after ∧ v.follow before = .ok w ∧
        w.part segment = .error e := by
  constructor
  · intro h
    induction segments generalizing v with
    | nil => cases h
    | cons segment segments ih =>
      rw [follow] at h
      cases hpart : v.part segment with
      | ok u =>
        rw [hpart] at h
        obtain ⟨before, stop, after, w, rfl, hfollow, hstop⟩ := ih h
        refine ⟨segment :: before, stop, after, w, rfl, ?_, hstop⟩
        rw [follow, hpart]
        exact hfollow
      | error e' =>
        rw [hpart] at h
        obtain rfl := Except.error.inj h
        exact ⟨[], segment, segments, v, rfl, rfl, hpart⟩
  · rintro ⟨before, segment, after, w, rfl, hfollow, hpart⟩
    rw [follow_append, hfollow]
    simp only [follow, hpart]

/-- An index is refused for its length exactly where one is met that is too long. -/
theorem exists_indexTooLong_iff {path : String} :
    (∃ e, v.get path = .error (.indexTooLong e)) ↔ v.MeetsLongIndex path := by
  constructor
  · rintro ⟨e, h⟩
    obtain ⟨before, segment, after, w, hsegments, hfollow, hpart⟩ := follow_eq_error_iff.mp h
    rcases part_eq_error hpart with hnot | hscalar | ⟨items, rfl, hnumeral, hlong, -⟩
    · cases hnot
    · cases hscalar
    · exact ⟨before, segment, after, items, hsegments, hfollow, hnumeral, hlong⟩
  · rintro ⟨before, segment, after, items, hsegments, hfollow, hnumeral, hlong⟩
    exact ⟨_, follow_eq_error_iff.mpr ⟨before, segment, after, .array items, hsegments, hfollow,
      part_of_long_index items hnumeral hlong⟩⟩

/-- At an array the numeral of `n` nines is too long if `n` is above the limit. -/
theorem meetsLongIndex_nines (items : List Value) {n : Nat} (hn : Numeral.maxDigits < n) :
    (array items).MeetsLongIndex (String.ofList (List.replicate n '9')) := by
  have hnine : ∀ ch ∈ List.replicate n '9', ch = '9' := fun ch h => List.eq_of_mem_replicate h
  have hdots : '.' ∉ List.replicate n '9' := fun h => absurd (hnine _ h) (by decide)
  refine ⟨[], String.ofList (List.replicate n '9'), [], items, ?_, rfl, ?_, ?_⟩
  · rw [Path.segments, String.toList_ofList, Path.splitDots_of_not_mem hdots]
    rfl
  · rw [String.toList_ofList, Numeral.isNumeral, Bool.and_eq_true, List.all_eq_true]
    have hne : n ≠ 0 := Nat.ne_of_gt (Nat.zero_lt_of_lt hn)
    refine ⟨by simp [hne], fun ch h => ?_⟩
    rw [hnine ch h]
    rfl
  · rw [String.toList_ofList, List.length_replicate]
    exact hn

/-- **What a look-up answers.**  Following a path in a value ends with a node of the value, or
with an error whose diagnostic names a segment of the path and the kind of a node that this
segment names nothing in, or with an index that is refused for its length.  The last is the
case exactly if the path comes to an array with a numeral that is too long to be read. -/
theorem get_answers (v : Value) (path : String) :
    ((∃ w, v.get path = .ok w ∧ v.Node w) ∨
      (∃ e w, ∃ segment ∈ Path.segments path, v.get path = .error e ∧ v.Node w ∧
        (e.diagnostic? = some (.pathNotFound segment w.kind) ∨
          e.diagnostic? = some (.pathThroughScalar segment w.kind))) ∨
      ∃ e, v.get path = .error (.indexTooLong e)) ∧
    ((∃ e, v.get path = .error (.indexTooLong e)) ↔ v.MeetsLongIndex path) := by
  refine ⟨?_, exists_indexTooLong_iff⟩
  cases h : v.get path with
  | ok w => exact .inl ⟨w, rfl, node_of_follow h⟩
  | error e =>
    obtain ⟨before, segment, after, w, hsegments, hfollow, hpart⟩ := follow_eq_error_iff.mp h
    have hmem : segment ∈ Path.segments path := by
      rw [hsegments]
      exact List.mem_append_right _ List.mem_cons_self
    have hnode := node_of_follow hfollow
    rcases part_eq_error hpart with rfl | rfl | ⟨items, -, -, -, rfl⟩
    · exact .inr (.inl ⟨_, w, segment, hmem, rfl, hnode, .inl rfl⟩)
    · exact .inr (.inl ⟨_, w, segment, hmem, rfl, hnode, .inr rfl⟩)
    · exact .inr (.inr ⟨_, rfl⟩)

/-- An array of one item has no item for the index of 4301 nines, but the error has no
diagnostic. -/
theorem longIndex_without_diagnostic :
    ∃ e, (array [null]).get (String.ofList (List.replicate 4301 '9')) = .error e ∧
      e.diagnostic? = none := by
  have hlong : Numeral.maxDigits < 4301 := by decide
  obtain ⟨e, h⟩ := exists_indexTooLong_iff.mpr (meetsLongIndex_nines [null] hlong)
  exact ⟨_, h, rfl⟩

/-! ## One path behind another -/

theorem get_append_dot (v : Value) (p q : String) :
    v.get (p ++ "." ++ q) = v.get p >>= fun w => w.get q := by
  rw [get, Path.segments_append_dot, follow_append, ← get]
  cases v.get p <;> rfl

/-- Paths with dots between them are followed one after the other. -/
theorem get_intercalate (v : Value) (p : String) (ps : List String) :
    v.get (".".intercalate (p :: ps)) = (p :: ps).foldlM get v := by
  induction ps generalizing v p with
  | nil =>
    rw [List.foldlM_cons]
    exact (bind_pure (v.get p)).symm
  | cons q ps ih =>
    rw [String.intercalate_cons_cons, get_append_dot, List.foldlM_cons]
    simp only [ih]

/-- **Paths compose.**  A path that is one path, a dot and another path leads where the second
leads from where the first has led.  It fails exactly if the first fails, or the second fails
from there, and with the error of this one.  The same holds for any number of paths with dots
between them. -/
theorem get_composes (v : Value) (p q : String) :
    (v.get (p ++ "." ++ q) = match v.get p with
      | .ok w => w.get q
      | .error e => .error e) ∧
    (∀ u, v.get (p ++ "." ++ q) = .ok u ↔ ∃ w, v.get p = .ok w ∧ w.get q = .ok u) ∧
    (∀ e, v.get (p ++ "." ++ q) = .error e ↔
      v.get p = .error e ∨ ∃ w, v.get p = .ok w ∧ w.get q = .error e) ∧
    ∀ ps, v.get (".".intercalate (p :: ps)) = (p :: ps).foldlM get v := by
  have hget : v.get (p ++ "." ++ q) = match v.get p with
      | .ok w => w.get q
      | .error e => .error e := by
    rw [get_append_dot]
    cases v.get p <;> rfl
  refine ⟨hget, fun u => ?_, fun e => ?_, get_intercalate v p⟩
  · rw [hget]
    cases v.get p <;> simp
  · rw [hget]
    cases v.get p <;> simp

end Value
end Json
end Descent
