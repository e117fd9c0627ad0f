import Descent.Proofs.Consumption

/-!
# What a separated repetition reads

A separated repetition keeps two cursors: the one after the last item, and the one after the
separator that follows it, where the next item is tried.  It stops at an item that does not
read, and then the separator before it has not been consumed; at a separator that does not
read; and after an item and a separator that have not moved, since the next round would be
the same one again.

All of it is about any two parsers that return on every cursor inside a text and never move
back (`Parser.Advances`), as every grammar does that returns on every list of characters
(`Rules.parse_advances`).  Under this condition alone the repetition succeeds, with no more
than one item for each character that is left and one more.  If the item and the separator
never stand still together, it is the plain repetition: an item, and any number of separators
with an item after each.  Where both stand still, the plain one reads the pair once more
before it stops.
-/

namespace Descent

/-! ## Cursors inside a text -/

namespace Cursor

/-- The cursor stands inside its text or at its end. -/
structure Inside (c : Cursor) : Prop where
  nonneg : 0 ≤ c.pos
  le_size : c.pos ≤ c.source.size

theorem Ahead.inside {c r : Cursor} (h : c.Ahead r) (hc : c.Inside) : r.Inside where
  nonneg := Int.le_trans hc.nonneg h.pos_le
  le_size := by
    rw [h.source_eq]
    exact h.le_size

theorem Ahead.trans {c r m : Cursor} (h : c.Ahead r) (h' : r.Ahead m) : c.Ahead m where
  source_eq := h'.source_eq.trans h.source_eq
  pos_le := Int.le_trans h.pos_le h'.pos_le
  le_size := by
    rw [← h.source_eq]
    exact h'.le_size

/-- A cursor ahead that has not moved is the same one. -/
theorem Ahead.eq_of_pos_le {c r : Cursor} (h : c.Ahead r) (hpos : r.pos ≤ c.pos) : r = c := by
  obtain ⟨source, pos⟩ := c
  obtain ⟨source', pos'⟩ := r
  obtain rfl : source' = source := h.source_eq
  obtain rfl : pos' = pos := Int.le_antisymm hpos h.pos_le
  rfl

/-- A cursor ahead that is another one leaves less. -/
theorem Ahead.length_lt {c r : Cursor} (h : c.Ahead r) (hne : r ≠ c) : r.length < c.length := by
  have hlt : c.pos < r.pos := Int.not_le.mp fun hle => hne (h.eq_of_pos_le hle)
  have hsize := h.le_size
  simp only [length, h.source_eq]
  omega

theorem Inside.extent_eq {c : Cursor} (hc : c.Inside) : extent c = c.length := by
  rw [Cursor.extent_eq, if_neg (Int.not_lt.mpr hc.le_size)]

end Cursor

namespace Parser

variable {α β : Type}

/-! ## Parsers that return and never move back -/

/-- From the states `I` the parser returns on every cursor inside a text, in a state of `I`,
and a success hands on a cursor ahead. -/
structure Advances (I : RunState → Prop) (p : Parser Cursor α) : Prop where
  returns : ∀ c s, c.Inside → I s → ∃ o s', p c s = .ok o s' ∧ I s'
  ahead : ∀ c s r a s', c.Inside → I s → p c s = .ok (.success r a) s' → c.Ahead r

/-- What a parser that advances ends in is a state of `I`. -/
theorem Advances.keeps {I : RunState → Prop} {p : Parser Cursor α} (hp : p.Advances I)
    {c : Cursor} {s s' : RunState} {o : Outcome Cursor α} (hc : c.Inside) (hs : I s)
    (h : p c s = .ok o s') : I s' := by
  obtain ⟨o', t, ht, hI⟩ := hp.returns c s hc hs
  obtain ⟨-, rfl⟩ := EStateM.Result.ok.inj (h.symm.trans ht)
  exact hI

/-- A parser after another one whose value does not count. -/
theorem preceded_apply {ι : Type} (q : Parser ι β) (p : Parser ι α) (i : ι) (s : RunState) :
    preceded q p i s = match q i s with
      | .ok (.success m _) s' => p m s'
      | .ok (.failure j l) s' => .ok (.failure j l) s'
      | .error h s' => .error h s' := by
  unfold preceded map2 both
  rw [map_apply, flatMap_apply]
  rcases q i s with ⟨o, s'⟩ | ⟨h, s'⟩
  · cases o with
    | failure j l => rfl
    | success m b =>
      simp only [map_apply]
      rcases p m s' with ⟨o, s''⟩ | ⟨h, s''⟩
      · cases o <;> rfl
      · rfl
  · rfl

section Separated

variable (p : Parser Cursor α) (q : Parser Cursor β)

/-- One item or more from `i` in the state `s`, with a separator before each but the first:
what is left after the last of them, and their values. -/
inductive ItemRuns : Cursor → RunState → Cursor → List α → Prop where
  /-- There is no separator after the item. -/
  | last {i r j : Cursor} {s s' t : RunState} {a : α} {l : Int}
      (h : p i s = .ok (.success r a) s') (hq : q r s' = .ok (.failure j l) t) :
      ItemRuns i s r [a]
  /-- The item and the separator after it have not moved. -/
  | still {i r : Cursor} {s s' t : RunState} {a : α} {b : β}
      (h : p i s = .ok (.success r a) s') (hq : q r s' = .ok (.success i b) t) :
      ItemRuns i s r [a]
  /-- The separator after the item has no item after it, and is not consumed. -/
  | unpaired {i r m j : Cursor} {s s' s'' t : RunState} {a : α} {b : β} {l : Int}
      (h : p i s = .ok (.success r a) s') (hq : q r s' = .ok (.success m b) s'')
      (hp : p m s'' = .ok (.failure j l) t) : ItemRuns i s r [a]
  /-- There is a separator after the item, and an item after it. -/
  | more {i r m r' : Cursor} {s s' s'' : RunState} {a : α} {b : β} {as : List α}
      (h : p i s = .ok (.success r a) s') (hq : q r s' = .ok (.success m b) s'') (hm : m ≠ i)
      (hrest : ItemRuns m s'' r' as) : ItemRuns i s r' (a :: as)

variable {p q} {I : RunState → Prop}

/-- The rounds of a separated repetition add a list of items to those collected so far. -/
theorem separatedFrom_reads (hp : p.Advances I) (hq : q.Advances I) (rounds : Nat)
    (values : Array α) (committed i : Cursor) (hi : i.Inside) (s : RunState) (hs : I s)
    (hrounds : i.length < rounds) :
    ∃ as r s', separatedFrom p q rounds values committed i s
        = .ok (.success r (values.toList ++ as)) s' ∧ I s' ∧ as.length ≤ i.length + 1 ∧
      ((as = [] ∧ r = committed ∧ ∃ j l t, p i s = .ok (.failure j l) t) ∨
        ItemRuns p q i s r as) := by
  induction rounds generalizing values committed i s with
  | zero => exact absurd hrounds (Nat.not_lt_zero _)
  | succ rounds ih =>
    obtain ⟨o, s', h₁, hs'⟩ := hp.returns i s hi hs
    rw [separatedFrom_succ, h₁]
    cases o with
    | failure j l =>
      exact ⟨[], committed, s', by simp, hs', Nat.zero_le _, .inl ⟨rfl, rfl, j, l, s', rfl⟩⟩
    | success r a =>
      have hr := hp.ahead i s r a s' hi hs h₁
      obtain ⟨o, s'', h₂, hs''⟩ := hq.returns r s' (hr.inside hi) hs'
      simp only [h₂]
      cases o with
      | failure j l =>
        exact ⟨[a], r, s'', by simp, hs'', Nat.le_add_left _ _, .inr (.last h₁ h₂)⟩
      | success m b =>
        have hm := hr.trans (hq.ahead r s' m b s'' (hr.inside hi) hs' h₂)
        simp only
        split
        · next heq =>
          rw [heq] at h₂
          exact ⟨[a], r, s'', by simp, hs'', Nat.le_add_left _ _, .inr (.still h₁ h₂)⟩
        · next hne =>
          have hlt := hm.length_lt hne
          obtain ⟨as, r', t, h₃, ht, hlen, has⟩ :=
            ih (values.push a) r m (hm.inside hi) s'' hs'' (by omega)
          refine ⟨a :: as, r', t, ?_, ht, ?_, ?_⟩
          · rw [h₃, Array.toList_push, List.append_assoc, List.singleton_append]
          · rw [List.length_cons]
            omega
          · rcases has with ⟨rfl, rfl, j, l, t', hp'⟩ | has
            · exact .inr (.unpaired h₁ h₂ hp')
            · exact .inr (.more h₁ h₂ hne has)

/-! ## The plain definition -/

/-- The values collected so far stand before those of the rounds that follow. -/
theorem repeatFrom_append {ι : Type} [DecidableEq ι] (p : Parser ι α) (rounds : Nat)
    (values more : Array α) (i : ι) (s : RunState) :
    repeatFrom 0 p rounds (values ++ more) i s
      = map (values.toList ++ ·) (repeatFrom 0 p rounds more) i s := by
  induction rounds generalizing more i s with
  | zero => rfl
  | succ rounds ih =>
    rw [map_apply, repeatFrom_succ, repeatFrom_succ]
    rcases p i s with ⟨o, s'⟩ | ⟨h, s'⟩
    · cases o with
      | failure j l => simp
      | success r a =>
        simp only [Array.push_append]
        split
        · simp
        · rw [ih, map_apply]
    · rfl

/-- After an item the rounds of a separated repetition go on like any number of separators
with an item after each, if there is no cursor where an item and a separator both read and do
not move. -/
theorem separatedFrom_eq_repeatFrom (hp : p.Advances I) (hq : q.Advances I)
    (hmoves : ∀ c s s' a b t t', c.Inside → I s → I s' → p c s = .ok (.success c a) t →
      q c s' ≠ .ok (.success c b) t')
    (rounds rounds' : Nat) (values : Array α) (committed i r : Cursor) (hi : i.Inside)
    (s s' : RunState) (hs : I s) (a : α) (h : p i s = .ok (.success r a) s')
    (hrounds : i.length < rounds) (hrounds' : r.length < rounds') :
    separatedFrom p q rounds values committed i s
      = repeatFrom 0 (preceded q p) rounds' (values.push a) r s' := by
  induction rounds generalizing rounds' values committed i r s s' a with
  | zero => exact absurd hrounds (Nat.not_lt_zero _)
  | succ rounds ih =>
    obtain ⟨rounds', rfl⟩ := Nat.exists_eq_succ_of_ne_zero
      (Nat.ne_of_gt (Nat.zero_lt_of_lt hrounds'))
    have hr := hp.ahead i s r a s' hi hs h
    have hrin := hr.inside hi
    have hs' := hp.keeps hi hs h
    rw [separatedFrom_succ, h, repeatFrom_succ, preceded_apply]
    simp only
    obtain ⟨o, s'', hq₁, hs''⟩ := hq.returns r s' hrin hs'
    rw [hq₁]
    cases o with
    | failure j l => simp
    | success m b =>
      have hm := hq.ahead r s' m b s'' hrin hs' hq₁
      have hmin := hm.inside hrin
      -- the item and the separator after it have moved
      have hmi : m ≠ i := by
        rintro rfl
        obtain rfl := hr.eq_of_pos_le hm.pos_le
        exact hmoves r s s' a b s' s'' hi hs hs' h hq₁
      have hlt := (hr.trans hm).length_lt hmi
      simp only [if_neg hmi]
      obtain ⟨o, t, hp₂, ht⟩ := hp.returns m s'' hmin hs''
      cases o with
      | failure j l =>
        obtain ⟨rounds, rfl⟩ := Nat.exists_eq_succ_of_ne_zero
          (Nat.ne_of_gt (Nat.lt_of_lt_of_le (Nat.zero_lt_of_lt hlt) (Nat.le_of_lt_succ hrounds)))
        rw [separatedFrom_succ, hp₂]
        simp
      | success r' a' =>
        have hr' := hp.ahead m s'' r' a' t hmin hs'' hp₂
        -- the separator and the item after it have moved
        have hrr : r' ≠ r := by
          intro heq
          rw [heq] at hr' hp₂
          obtain rfl := hm.eq_of_pos_le hr'.pos_le
          exact hmoves m s'' s' a' b t s'' hrin hs'' hs' hp₂ hq₁
        have hlt' := (hm.trans hr').length_lt hrr
        simp only [hp₂, if_neg hrr]
        exact ih rounds' (values.push a) r m r' hmin s'' t hs'' a' hp₂ (by omega) (by omega)

/-- **What a separated repetition reads.**  Take an item and a separator that return on every
cursor inside a text and never move back.  On such a cursor the separated repetition succeeds,
with no more items than characters are left and one more.  Either there is no item, and it
leaves the cursor that it was given; or the items are there with a separator between them,
up to where the next one cannot be had, and it leaves what the last item left.

If there is no cursor where both read and do not move, it is an item with any number of
separators after it, each with an item, or nothing at all. -/
theorem separated_reads (hp : p.Advances I) (hq : q.Advances I) (c : Cursor) (hc : c.Inside)
    (s : RunState) (hs : I s) :
    (∃ as r s', separated p q c s = .ok (.success r as) s' ∧ I s' ∧
        as.length ≤ c.length + 1 ∧
        ((as = [] ∧ r = c ∧ ∃ j l t, p c s = .ok (.failure j l) t) ∨ ItemRuns p q c s r as)) ∧
      ((∀ c s s' a b t t', c.Inside → I s → I s' → p c s = .ok (.success c a) t →
          q c s' ≠ .ok (.success c b) t') →
        separated p q c s = map (fun as => as.getD [])
          (optional (map2 List.cons p (many (preceded q p)))) c s) := by
  have hrounds : c.length < extent c + 1 := by
    rw [hc.extent_eq]
    exact Nat.lt_succ_self _
  have hreads := separatedFrom_reads hp hq (extent c + 1) #[] c c hc s hs hrounds
  refine ⟨hreads, fun hmoves => ?_⟩
  obtain ⟨o, s', h, hs'⟩ := hp.returns c s hc hs
  cases o with
  | failure j l =>
    unfold separated map2 both
    rw [separatedFrom_succ, map_apply, optional_apply, map_apply, flatMap_apply, h]
    rfl
  | success r a =>
    have hr := (hp.ahead c s r a s' hc hs h).inside hc
    have hmany : separated p q c s = map (a :: ·) (many (preceded q p)) r s' := by
      refine (separatedFrom_eq_repeatFrom hp hq hmoves (extent c + 1) (extent r + 1) #[] c c r hc
        s s' hs a h hrounds (by rw [hr.extent_eq]; exact Nat.lt_succ_self _)).trans ?_
      exact repeatFrom_append (preceded q p) (extent r + 1) #[a] #[] r s'
    obtain ⟨_, _, _, hok, -⟩ := hreads
    rw [map_apply, optional_apply, map2, both, map_apply, flatMap_apply, h]
    simp only [map_apply] at hmany ⊢
    rcases hx : many (preceded q p) r s' with ⟨o, s''⟩ | ⟨e, s''⟩
    · cases o with
      | failure j l =>
        -- what the separated repetition answers is a success
        rw [hx] at hmany
        cases hmany.symm.trans hok
      | success r'' as' =>
        rw [hmany, hx]
        rfl
    · rw [hmany, hx]

/-- Where both stand still, the plain definition has one item more. -/
example : separated (succeed 'x') (succeed ()) { source := #[] } {}
      = .ok (.success ({ source := #[] } : Cursor) ['x']) {} ∧
    map (fun as => as.getD []) (optional (map2 List.cons (succeed 'x')
        (many (preceded (succeed ()) (succeed 'x'))))) { source := #[] } {}
      = .ok (.success ({ source := #[] } : Cursor) ['x', 'x']) {} :=
  ⟨rfl, rfl⟩

end Separated
end Parser

/-! ## Grammars -/

section Grammars

variable {ρ : Type} {τ : ρ → Type} {α : Type}

/-- A grammar that returns on every list of characters returns on every text, and it never
moves back. -/
theorem Rules.parse_advances (rules : Rules Primitive τ) (e : Expr Primitive τ α) (calls : Nat)
    (G : Array DepthGuard)
    (h : ∀ (l : List Char) s, s.guards = G → ∃ o s', rules.parse e calls l s = .ok o s') :
    (rules.parse e calls).Advances fun s => s.guards = G where
  returns c s hc hs := by
    obtain ⟨o, t, ht⟩ := h c.remainder s hs
    have halike := rules.parse_leaving e calls c.remainder_suffix s
    rw [Cursor.leaving_remainder hc.nonneg hc.le_size, ht] at halike
    generalize rules.parse e calls c s = x at halike ⊢
    cases halike with
    | success _ _ hs' _ => exact ⟨_, _, rfl, hs'.trans hs⟩
    | failure _ _ hs' _ => exact ⟨_, _, rfl, hs'.trans hs⟩
  ahead c s r a s' hc _ hr := (rules.parse_ahead e calls c hc.nonneg hc.le_size s).1 r a s' hr

/-- A primitive returns on every text. -/
theorem Rules.parse_terminal_advances (rules : Rules Primitive τ) (t : Primitive α) (calls : Nat)
    (G : Array DepthGuard) :
    (rules.parse (.terminal t) calls).Advances fun s => s.guards = G :=
  rules.parse_advances (.terminal t) calls G fun _ _ _ => ⟨_, _, rfl⟩

end Grammars

/-- A field of a line: what stands before the next comma, or nothing. -/
def field : Parser Cursor Text := noRules.parse (.runOrEmpty (.noneOf [','])) 0

/-- The comma between two fields. -/
def comma : Parser Cursor Text := noRules.parse (.literal ",") 0

/-- The fields of `a,,b`, one of which has zero width. -/
theorem fields_reads :
    (∃ as r s', Parser.separated field comma { source := #['a', ',', ',', 'b'] } {}
        = .ok (.success r as) s' ∧ s'.guards = #[] ∧ as.length ≤ 5 ∧
      ((as = [] ∧ r = { source := #['a', ',', ',', 'b'] } ∧
          ∃ j l t, field { source := #['a', ',', ',', 'b'] } {} = .ok (.failure j l) t) ∨
        Parser.ItemRuns field comma { source := #['a', ',', ',', 'b'] } {} r as)) ∧
    Parser.separated field comma { source := #['a', ',', ',', 'b'] } {}
      = Parser.map (fun as => as.getD [])
          (Parser.optional (Parser.map2 List.cons field
            (Parser.many (Parser.preceded comma field))))
          { source := #['a', ',', ',', 'b'] } {} := by
  have hfield : field.Advances fun s => s.guards = #[] :=
    noRules.parse_terminal_advances (.run (.noneOf [',']) true) 0 #[]
  have hcomma : comma.Advances fun s => s.guards = #[] :=
    noRules.parse_terminal_advances (.literal ",".toList.toArray) 0 #[]
  have h := Parser.separated_reads hfield hcomma { source := #['a', ',', ',', 'b'] }
    ⟨by decide, by decide⟩ {} rfl
  refine ⟨h.1, h.2 ?_⟩
  -- a comma that is read is one that was left
  intro c s s' a b t t' hc _ _ _ hq
  have hread : comma c s' = .ok (Primitive.readLiteral #[','] c) s' := rfl
  rw [hread, Primitive.readLiteral] at hq
  split at hq
  · next hcomma =>
    have hpos : min (c.pos + 1) c.source.size = c.pos := congrArg Cursor.pos
      (Outcome.success.inj (EStateM.Result.ok.inj hq).1).1
    have hle := hc.le_size
    simp only [Text.continuesWith, Bool.and_eq_true, decide_eq_true_eq] at hcomma
    have hin := hcomma.1
    simp only [List.size_toArray, List.length_singleton] at hin
    split at hin <;> omega
  · cases hq

end Descent
