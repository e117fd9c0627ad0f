import Descent.Proofs.Repetition

/-!
# What a repetition reads

A repetition applies a parser to what its last success has left, and there are three ways for
it to end: the parser fails and there were enough successes, it fails and there were not, or it
succeeds and does not move.  In the last case the value counts, and the repetition is over,
since the parser would succeed in the same way for ever.

`Parser.Applications` says which successes there are, in which order, and how they end; a
repetition without a least number of matches reads just these (`repeatFrom_applications`).
Under `Parser.Advances` each success but the last one leaves less than the one before, which
bounds their number.  A least number of matches makes itself felt only in the first rounds, and
for one match in the first round alone, so a repetition that has one match at least is a
repetition with any number or the failure of the first application.
-/

namespace Descent
namespace Parser

variable {α : Type} {p : Parser Cursor α} {I : RunState → Prop}

/-- The applications of `p` from `i` on in the state `s`, each to what the success before it
has left: the values of the successes, the cursor after them, and the state at the end. -/
inductive Applications (p : Parser Cursor α) :
    Cursor → RunState → List α → Cursor → RunState → Prop where
  /-- The parser fails. -/
  | stop {i j : Cursor} {s s' : RunState} {l : Int} (h : p i s = .ok (.failure j l) s') :
      Applications p i s [] i s'
  /-- The parser succeeds and does not move, and its value counts. -/
  | still {i : Cursor} {s s' : RunState} {a : α} (h : p i s = .ok (.success i a) s') :
      Applications p i s [a] i s'
  /-- The parser succeeds and moves on. -/
  | more {i r r' : Cursor} {s s' s'' : RunState} {a : α} {as : List α}
      (h : p i s = .ok (.success r a) s') (hr : i.pos < r.pos)
      (hrest : Applications p r s' as r' s'') : Applications p i s (a :: as) r' s''

/-- Each success but the last takes a character at least. -/
theorem Applications.length_le (hp : p.Advances I) {i r : Cursor} {s s' : RunState} {as : List α}
    (h : Applications p i s as r s') (hi : i.Inside) (hs : I s) : as.length ≤ i.length + 1 := by
  induction h with
  | stop _ => exact Nat.zero_le _
  | still _ => exact Nat.le_add_left _ _
  | @more i r r' s s' s'' a as h hr _ ih =>
    have hahead := hp.ahead i s r a s' hi hs h
    have hne : r ≠ i := fun heq => Int.lt_irrefl _ (heq ▸ hr)
    have hlt := hahead.length_lt hne
    have hle := ih (hahead.inside hi) (hp.keeps hi hs h)
    rw [List.length_cons]
    omega

/-- The rounds of a repetition add the values of the applications to those collected so far. -/
theorem repeatFrom_applications (hp : p.Advances I) (rounds : Nat) (values : Array α)
    (i : Cursor) (hi : i.Inside) (s : RunState) (hs : I s) (hrounds : i.length < rounds) :
    ∃ as r s', repeatFrom 0 p rounds values i s = .ok (.success r (values.toList ++ as)) s' ∧
      I s' ∧ Applications p i s as r s' := by
  induction rounds generalizing values i s with
  | zero => exact absurd hrounds (Nat.not_lt_zero _)
  | succ rounds ih =>
    obtain ⟨o, s', h, hs'⟩ := hp.returns i s hi hs
    rw [repeatFrom_succ, h]
    cases o with
    | failure j l => exact ⟨[], i, s', by simp, hs', .stop h⟩
    | success r a =>
      have hr := hp.ahead i s r a s' hi hs h
      simp only
      split
      · next heq =>
        rw [heq] at h
        exact ⟨[a], i, s', by simp, hs', .still h⟩
      · next hne =>
        have hlt := hr.length_lt hne
        have hpos : i.pos < r.pos := Int.not_le.mp fun hle => hne (hr.eq_of_pos_le hle)
        obtain ⟨as, r', t, hrest, ht, has⟩ :=
          ih (values.push a) r (hr.inside hi) s' hs' (by omega)
        refine ⟨a :: as, r', t, ?_, ht, .more h hpos has⟩
        rw [hrest, Array.toList_push, List.append_assoc, List.singleton_append]

/-- Once there are enough matches the least number of them does not count. -/
theorem repeatFrom_of_le_size {ι : Type} [DecidableEq ι] {minimum : Nat} (p : Parser ι α)
    (rounds : Nat) {values : Array α} (h : minimum ≤ values.size) :
    repeatFrom minimum p rounds values = repeatFrom 0 p rounds values := by
  induction rounds generalizing values with
  | zero => rfl
  | succ rounds ih =>
    funext i s
    have hpush : ∀ a, minimum ≤ (values.push a).size := fun a => by
      rw [Array.size_push]
      exact Nat.le_succ_of_le h
    rw [repeatFrom_succ, repeatFrom_succ]
    simp only [if_neg (Nat.not_lt.mpr h), Nat.not_lt_zero, if_false, ih (hpush _)]

/-- One match at least is any number of matches, unless the first application fails. -/
theorem many1_apply {ι : Type} [DecidableEq ι] [Extent ι] (p : Parser ι α) (i : ι)
    (s : RunState) :
    many1 p i s = match p i s with
      | .ok (.failure j l) s' => .ok (.failure j l) s'
      | _ => many p i s := by
  unfold many1 many repeated
  rw [repeatFrom_succ, repeatFrom_succ]
  rcases p i s with ⟨o, s'⟩ | ⟨e, s'⟩
  · cases o with
    | failure j l => rfl
    | success r a =>
      have hone : 1 ≤ (#[].push a).size := Nat.le_refl 1
      simp only [repeatFrom_of_le_size p (extent i) hone]
  · rfl

/-- **What a repetition reads.**  Take a parser that returns on every cursor inside a text and
never moves back.  On such a cursor a repetition with any number of matches succeeds: its values
are those of the applications of the parser, each to what the one before it has left and each
but the last one farther on, up to where the parser fails or succeeds without moving; and it
leaves the cursor after them.  There are no more of them than characters are left and one more.
A repetition with one match at least fails exactly when the first application does, with the
same failure, and is a repetition with any number of matches otherwise. -/
theorem repetition_reads (hp : p.Advances I) (c : Cursor) (hc : c.Inside) (s : RunState)
    (hs : I s) :
    (∃ as r s', many p c s = .ok (.success r as) s' ∧ I s' ∧ Applications p c s as r s' ∧
        as.length ≤ c.length + 1) ∧
      (∀ j l s', many1 p c s = .ok (.failure j l) s' ↔ p c s = .ok (.failure j l) s') ∧
      ∀ r a s', p c s = .ok (.success r a) s' → many1 p c s = many p c s := by
  have hmany : ∃ as r s', many p c s = .ok (.success r as) s' ∧ I s' ∧
      Applications p c s as r s' := by
    refine repeatFrom_applications hp (extent c + 1) #[] c hc s hs ?_
    rw [hc.extent_eq]
    exact Nat.lt_succ_self _
  obtain ⟨as, r, t, hok, ht, has⟩ := hmany
  refine ⟨⟨as, r, t, hok, ht, has, has.length_le hp hc hs⟩, fun j l s' => ?_, fun r a s' h => ?_⟩
  · rw [many1_apply]
    obtain ⟨o, s'', h, -⟩ := hp.returns c s hc hs
    rw [h]
    cases o with
    | failure j' l' => simp
    | success r a => simp [hok]
  · rw [many1_apply, h]

end Parser

/-- The fields of `ab,c` without the commas: the first one moves to the comma, and the next one
is empty, with which the repetition ends. -/
theorem emptyField_repetition_reads :
    (∃ as r s', Parser.many field { source := #['a', 'b', ',', 'c'] } {}
        = .ok (.success r as) s' ∧ s'.guards = #[] ∧
        Parser.Applications field { source := #['a', 'b', ',', 'c'] } {} as r s' ∧
        as.length ≤ 5) ∧
      Parser.many1 field { source := #['a', 'b', ',', 'c'] } {}
        = .ok (.success { source := #['a', 'b', ',', 'c'], pos := 2 } [#['a', 'b'], #[]]) {} ∧
      Parser.many1 comma { source := #['a', 'b', ',', 'c'] } {}
        = .ok (.failure { source := #['a', 'b', ',', 'c'] } 1) {} := by
  have hfield : field.Advances fun s => s.guards = #[] :=
    noRules.parse_terminal_advances (.run (.noneOf [',']) true) 0 #[]
  have hcomma : comma.Advances fun s => s.guards = #[] :=
    noRules.parse_terminal_advances (.literal ",".toList.toArray) 0 #[]
  have hinside : Cursor.Inside { source := #['a', 'b', ',', 'c'] } := ⟨by decide, by decide⟩
  have h := Parser.repetition_reads hfield _ hinside {} rfl
  refine ⟨h.1, ?_, ((Parser.repetition_reads hcomma _ hinside {} rfl).2.1 _ _ _).mpr rfl⟩
  rw [h.2.2 _ _ _ rfl]
  rfl

end Descent
