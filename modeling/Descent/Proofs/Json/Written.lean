import Descent.Json.Derivation
import Descent.Json.Printer
import Descent.Proofs.Json.Members
import Descent.Proofs.Number.Positional

/-!
# What is written is derived

The texts that the printer writes are texts of the grammar.  A value can be written if it
holds no bare value, no quote in a string or a key, and no key twice in one object
(`Value.Writable`); these are also the values that the grammar denotes.

What the text of a value denotes is the value itself, but for its numbers: positional
notation multiplies positive exponents out.  So the written value is the one in which every
number is replaced by what is written of it (`Value.mapNumbers`), and all else, the order of
items and members included, is the same.  The level is the same as well.
-/

namespace Descent
namespace Json

namespace Value

/-! ## Values that can be written -/

/-- A value that can be written, and whose numbers have the property `P`. -/
inductive Writable (P : Decimal → Prop) : Value → Prop where
  | string {s : String} (h : '"' ∉ s.toList) : Writable P (.string s)
  | number {d : Decimal} (h : P d) : Writable P (.number d)
  | bool (b : Bool) : Writable P (.bool b)
  | null : Writable P .null
  | array {items : List Value} (h : ∀ v ∈ items, Writable P v) : Writable P (.array items)
  | object {members : List (String × Value)} (hnodup : (Members.keys members).Nodup)
      (hkey : ∀ m ∈ members, '"' ∉ m.1.toList) (h : ∀ m ∈ members, Writable P m.2) :
      Writable P (.object members)

/-! ## Other numbers in the same places -/

mutual

/-- The value in which `f` has replaced every number. -/
def mapNumbers (f : Decimal → Decimal) : Value → Value
  | .string s => .string s
  | .number d => .number (f d)
  | .bool b => .bool b
  | .null => .null
  | .array items => .array (mapNumbersItems f items)
  | .object members => .object (mapNumbersMembers f members)
  | .bare tag => .bare tag

/-- The items in which `f` has replaced every number. -/
def mapNumbersItems (f : Decimal → Decimal) : List Value → List Value
  | [] => []
  | v :: rest => v.mapNumbers f :: mapNumbersItems f rest

/-- The members in whose values `f` has replaced every number. -/
def mapNumbersMembers (f : Decimal → Decimal) :
    List (String × Value) → List (String × Value)
  | [] => []
  | (key, v) :: rest => (key, v.mapNumbers f) :: mapNumbersMembers f rest

end

variable {P : Decimal → Prop} (f : Decimal → Decimal)

theorem mapNumbersItems_eq (items : List Value) :
    mapNumbersItems f items = items.map (mapNumbers f) := by
  induction items with
  | nil => simp [mapNumbersItems]
  | cons v rest ih => simp [mapNumbersItems, ih]

theorem mapNumbersMembers_eq (members : List (String × Value)) :
    mapNumbersMembers f members = members.map fun m => (m.1, m.2.mapNumbers f) := by
  induction members with
  | nil => simp [mapNumbersMembers]
  | cons m rest ih => simp [mapNumbersMembers, ih]

theorem keys_mapNumbersMembers (members : List (String × Value)) :
    Members.keys (mapNumbersMembers f members) = Members.keys members := by
  rw [mapNumbersMembers_eq]
  exact Members.keys_map (mapNumbers f) members

/-- Numbers that `f` leaves alone stay where they are. -/
theorem Writable.mapNumbers_eq_self {v : Value} (h : v.Writable P) (hf : ∀ d, P d → f d = d) :
    v.mapNumbers f = v := by
  induction h with
  | string _ => simp [mapNumbers]
  | number hd => rw [mapNumbers, hf _ hd]
  | bool b => simp [mapNumbers]
  | null => simp [mapNumbers]
  | @array items _ ih =>
    have hitems : items.map (mapNumbers f) = items.map id := List.map_congr_left ih
    rw [mapNumbers, mapNumbersItems_eq, hitems, List.map_id]
  | @object members _ _ _ ih =>
    have hmembers : (members.map fun m => (m.1, m.2.mapNumbers f)) = members.map id :=
      List.map_congr_left fun m hm => by rw [ih m hm]; rfl
    rw [mapNumbers, mapNumbersMembers_eq, hmembers, List.map_id]

end Value

/-! ## Numbers -/

/-- The positional notation of a decimal is a number of the grammar. -/
theorem derivesNumber_toPositional (d : Decimal) : DerivesNumber d.toPositional d.expand := by
  obtain ⟨whole, fraction, htext, hne, hwhole, hfraction, hvalue⟩ := d.exists_toPositional
  rw [htext, ← hvalue]
  by_cases hf : fraction = []
  · subst hf
    rw [if_pos rfl, List.append_nil]
    exact .integer ⟨hne, hwhole⟩
  · rw [if_neg hf, ← List.append_assoc]
    exact .fractional ⟨hne, hwhole⟩ ⟨hf, hfraction⟩

/-! ## Items and members -/

theorem isBlank_space : IsBlank [' '] := by
  intro ch hch
  rw [List.mem_singleton.mp hch]
  decide

theorem DerivesElements.blank_before {t w : List Char} {vs : List Value} {n : Nat}
    (h : DerivesElements t vs n) (hw : IsBlank w) : DerivesElements (w ++ t) vs n := by
  cases h with
  | @single a u c v n ha hv hc =>
    rw [← List.append_assoc, ← List.append_assoc]
    exact .single (isBlank_append.mpr ⟨hw, ha⟩) hv hc
  | @cons a u c rest v vs n m ha hv hc hr =>
    rw [← List.append_assoc, ← List.append_assoc, ← List.append_assoc]
    exact .cons (isBlank_append.mpr ⟨hw, ha⟩) hv hc hr

theorem DerivesMembers.blank_before {t w : List Char} {members : List (String × Value)}
    {n : Nat} (h : DerivesMembers t members n) (hw : IsBlank w) :
    DerivesMembers (w ++ t) members n := by
  have hmember : ∀ {t member n}, DerivesMember t member n →
      DerivesMember (w ++ t) member n := by
    intro t member n h
    have := h.pad hw isBlank_nil
    rwa [List.append_nil] at this
  cases h with
  | single h => exact .single (hmember h)
  | cons h hr =>
    rw [← List.append_assoc]
    exact .cons (hmember h) hr

namespace Value

theorem derivesElements_writeItems (v : Value) (rest : List Value)
    (h : ∀ x ∈ v :: rest, Derives x.write (x.mapNumbers Decimal.expand) x.level) :
    DerivesElements (writeItems (v :: rest))
      ((v :: rest).map (mapNumbers Decimal.expand)) (levelItems (v :: rest)) := by
  induction rest generalizing v with
  | nil =>
    have hv := DerivesElements.single isBlank_nil (h v (List.mem_cons_self ..)) isBlank_nil
    simpa [levelItems] using hv
  | cons w rest ih =>
    have hrest := (ih w fun x hx => h x (List.mem_cons_of_mem _ hx)).blank_before isBlank_space
    have hv := DerivesElements.cons isBlank_nil (h v (List.mem_cons_self ..)) isBlank_nil hrest
    rw [writeItems_cons_cons, levelItems]
    simpa [separator] using hv

theorem writeMembers_cons_cons (m m' : String × Value) (rest : List (String × Value)) :
    writeMembers (m :: m' :: rest)
      = quoted m.1 ++ [':', ' '] ++ m.2.write ++ separator ++ writeMembers (m' :: rest) := by
  rw [writeMembers]

theorem derivesMember_write {m : String × Value} {v : Value} {n : Nat}
    (hkey : '"' ∉ m.1.toList) (h : Derives m.2.write v n) :
    DerivesMember (quoted m.1 ++ [':', ' '] ++ m.2.write) (m.1, v) n := by
  have := DerivesMember.mk isBlank_nil isBlank_nil isBlank_space isBlank_nil hkey h
  simpa [quoted] using this

theorem derivesMembers_writeMembers (m : String × Value) (rest : List (String × Value))
    (hkey : ∀ x ∈ m :: rest, '"' ∉ x.1.toList)
    (h : ∀ x ∈ m :: rest, Derives x.2.write (x.2.mapNumbers Decimal.expand) x.2.level) :
    DerivesMembers (writeMembers (m :: rest))
      ((m :: rest).map fun x => (x.1, x.2.mapNumbers Decimal.expand))
      (levelMembers (m :: rest)) := by
  induction rest generalizing m with
  | nil =>
    have hm := DerivesMembers.single (derivesMember_write (hkey m (List.mem_cons_self ..))
      (h m (List.mem_cons_self ..)))
    simpa [writeMembers, levelMembers] using hm
  | cons m' rest ih =>
    have hrest := (ih m' (fun x hx => hkey x (List.mem_cons_of_mem _ hx))
      fun x hx => h x (List.mem_cons_of_mem _ hx)).blank_before isBlank_space
    have hm := DerivesMembers.cons (derivesMember_write (hkey m (List.mem_cons_self ..))
      (h m (List.mem_cons_self ..))) hrest
    rw [writeMembers_cons_cons, levelMembers]
    simpa [separator] using hm

/-! ## Values -/

/-- **What is written of a value is derived**, with the level of the value, and denotes the
value with the positive exponents multiplied out. -/
theorem Writable.derives_write {P : Decimal → Prop} {v : Value} (h : v.Writable P) :
    Derives v.write (v.mapNumbers Decimal.expand) v.level := by
  induction h with
  | @string s hs =>
    have := Derives.string hs
    simpa [write, quoted, mapNumbers, level] using this
  | @number d _ =>
    have := Derives.number (derivesNumber_toPositional d)
    simpa [write, mapNumbers, level] using this
  | bool b =>
    cases b with
    | true => simpa [write, mapNumbers, level] using Derives.true
    | false => simpa [write, mapNumbers, level] using Derives.false
  | null => simpa [write, mapNumbers, level] using Derives.null
  | @array items _ ih =>
    rw [write, mapNumbers, mapNumbersItems_eq, level]
    cases items with
    | nil => simpa [levelItems] using Derives.emptyArray isBlank_nil
    | cons v rest =>
      have := Derives.array isBlank_nil (derivesElements_writeItems v rest ih) isBlank_nil
      rw [Nat.add_comm]
      simpa using this
  | @object members hnodup hkey _ ih =>
    rw [write, mapNumbers, level]
    cases members with
    | nil => simpa [writeMembers, levelMembers, mapNumbersMembers] using
        Derives.emptyObject isBlank_nil
    | cons m rest =>
      have hpairs := Members.ofPairs_of_nodup
        (by rwa [keys_mapNumbersMembers] :
          (Members.keys (mapNumbersMembers Decimal.expand (m :: rest))).Nodup)
      have := Derives.object isBlank_nil (derivesMembers_writeMembers m rest hkey ih)
        isBlank_nil
      rw [← mapNumbersMembers_eq, ofPairs, hpairs] at this
      rw [Nat.add_comm]
      simpa using this

end Value

/-! ## What is derived can be written -/

theorem DerivesNumber.exponent_le {t : List Char} {d : Decimal} (h : DerivesNumber t d) :
    d.exponent ≤ 0 := by
  cases h with
  | integer _ =>
    simp only [Decimal.ofDigits]
    omega
  | fractional _ _ =>
    simp only [Decimal.ofDigits]
    omega

theorem DerivesElements.exists_derives {t : List Char} {vs : List Value} {n : Nat}
    (h : DerivesElements t vs n) : ∀ v ∈ vs, ∃ u m, m ≤ n ∧ Derives u v m := by
  induction vs generalizing t n with
  | nil => exact fun v hv => absurd hv (by simp)
  | cons v vs ih =>
    intro x hx
    cases h with
    | single _ h _ =>
      obtain rfl := List.mem_singleton.mp hx
      exact ⟨_, n, Nat.le_refl n, h⟩
    | @cons _ _ _ _ _ _ n m _ h _ hr =>
      rcases List.mem_cons.mp hx with rfl | hx
      · exact ⟨_, n, Nat.le_max_left n m, h⟩
      · obtain ⟨u, k, hk, hu⟩ := ih hr x hx
        exact ⟨u, k, Nat.le_trans hk (Nat.le_max_right n m), hu⟩

theorem DerivesMembers.exists_derives {t : List Char} {members : List (String × Value)}
    {n : Nat} (h : DerivesMembers t members n) :
    ∀ m ∈ members, '"' ∉ m.1.toList ∧ ∃ u k, k ≤ n ∧ Derives u m.2 k := by
  have of_member : ∀ {t m n}, DerivesMember t m n →
      '"' ∉ m.1.toList ∧ ∃ u k, k ≤ n ∧ Derives u m.2 k := by
    rintro _ _ n @⟨a, b, c, e, key, t, v, _, _, _, _, _, hk, h⟩
    exact ⟨by rwa [String.toList_ofList], t, n, Nat.le_refl n, h⟩
  induction members generalizing t n with
  | nil => exact fun v hv => absurd hv (by simp)
  | cons m members ih =>
    intro x hx
    cases h with
    | single h =>
      obtain rfl := List.mem_singleton.mp hx
      exact of_member h
    | @cons _ _ _ _ n k h hr =>
      rcases List.mem_cons.mp hx with rfl | hx
      · obtain ⟨hkey, u, j, hj, hu⟩ := of_member h
        exact ⟨hkey, u, j, Nat.le_trans hj (Nat.le_max_left n k), hu⟩
      · obtain ⟨hkey, u, j, hj, hu⟩ := ih hr x hx
        exact ⟨hkey, u, j, Nat.le_trans hj (Nat.le_max_right n k), hu⟩

namespace Value

theorem levelItems_le {items : List Value} {n : Nat} (h : ∀ v ∈ items, v.level ≤ n) :
    levelItems items ≤ n := by
  induction items with
  | nil => rw [levelItems]; exact Nat.zero_le n
  | cons v rest ih =>
    obtain ⟨hv, hrest⟩ := List.forall_mem_cons.mp h
    rw [levelItems]
    exact Nat.max_le.mpr ⟨hv, ih hrest⟩

theorem levelMembers_le {members : List (String × Value)} {n : Nat}
    (h : ∀ m ∈ members, m.2.level ≤ n) : levelMembers members ≤ n := by
  induction members with
  | nil => rw [levelMembers]; exact Nat.zero_le n
  | cons m rest ih =>
    obtain ⟨hm, hrest⟩ := List.forall_mem_cons.mp h
    rw [levelMembers]
    exact Nat.max_le.mpr ⟨hm, ih hrest⟩

end Value

/-- **What the grammar denotes can be written**, no number in it has a positive exponent,
and its level is at most that of the derivation.  It can be lower: a member whose key occurs
again counts for the derivation, but is no part of the value. -/
theorem Derives.writable {t : List Char} {v : Value} {n : Nat} (h : Derives t v n) :
    v.Writable (fun d => d.exponent ≤ 0) ∧ v.level ≤ n := by
  induction n using Nat.strongRecOn generalizing t v with
  | ind n ih =>
    cases h with
    | string hs => exact ⟨.string (by rwa [String.toList_ofList]), by simp [Value.level]⟩
    | number hd => exact ⟨.number hd.exponent_le, by simp [Value.level]⟩
    | null => exact ⟨.null, by simp [Value.level]⟩
    | true => exact ⟨.bool Bool.true, by simp [Value.level]⟩
    | false => exact ⟨.bool Bool.false, by simp [Value.level]⟩
    | emptyArray _ =>
      exact ⟨.array (by simp), by simp [Value.level, Value.levelItems]⟩
    | @array _ _ _ items n _ hitems _ =>
      have hpart : ∀ v ∈ items,
          v.Writable (fun d => d.exponent ≤ 0) ∧ v.level ≤ n := by
        intro v hv
        obtain ⟨u, m, hm, hu⟩ := hitems.exists_derives v hv
        obtain ⟨hw, hl⟩ := ih m (Nat.lt_succ_of_le hm) hu
        exact ⟨hw, Nat.le_trans hl hm⟩
      refine ⟨.array fun v hv => (hpart v hv).1, ?_⟩
      have := Value.levelItems_le fun v hv => (hpart v hv).2
      rw [Value.level]
      omega
    | emptyObject _ =>
      exact ⟨.object List.nodup_nil (by simp) (by simp),
        by simp [Value.level, Value.levelMembers]⟩
    | @object _ _ _ pairs n _ hpairs _ =>
      obtain ⟨hnodup, hmem⟩ := Members.nodup_keys_ofPairs pairs
      have hpart : ∀ m ∈ Members.ofPairs pairs, '"' ∉ m.1.toList ∧
          m.2.Writable (fun d => d.exponent ≤ 0) ∧ m.2.level ≤ n := by
        intro m hm
        obtain ⟨hkey, u, k, hk, hu⟩ := hpairs.exists_derives m (hmem m hm)
        obtain ⟨hw, hl⟩ := ih k (Nat.lt_succ_of_le hk) hu
        exact ⟨hkey, hw, Nat.le_trans hl hk⟩
      refine ⟨.object hnodup (fun m hm => (hpart m hm).1) fun m hm => (hpart m hm).2.1, ?_⟩
      have := Value.levelMembers_le fun m hm => (hpart m hm).2.2
      rw [Value.ofPairs, Value.level]
      omega

end Json
end Descent
