import Descent.Proofs.Choice
import Descent.Proofs.Repetition
import Mathlib.Data.List.TakeWhile

/-!
# Nothing is lost

A parser whose values are texts is faithful when the value of a success is the stretch of the
source that the success has taken: value and remainder together are what was left before
(`Cursor.Takes`, `Parser.Faithful`).

The primitives compute the two apart, the value as a slice up to an absolute position and the
remainder by moving the cursor, and they are faithful since both come from one list of
characters (`Cursor.takes_leaving`).  A run takes all the characters that are admitted, up to
the first one that is not (`Parser.TakesRuns`).

The combinators thread values and remainders apart as well, through sequences, rounds and
alternatives that are undone.  There is one lemma for each of them, and each comes down to
`Cursor.Takes.refl`, where nothing has been taken, and to `Cursor.Takes.trans`, where one
stretch follows another.  A grammar that joins texts in these ways and in no other is faithful,
however its rules refer to each other (`Expr.Lossless.eval`, `Rules.call_faithful`).
-/

namespace Descent

/-! ## Stretches of a source -/

namespace Cursor

/-- From `c` the text `a` has been taken, and `r` stands behind it. -/
structure Takes (c : Cursor) (a : Text) (r : Cursor) : Prop where
  ahead : c.Ahead r
  append_rest : a ++ r.rest = c.rest

theorem Takes.refl {c : Cursor} (hc : c.Inside) : c.Takes #[] c where
  ahead := ⟨rfl, Int.le_refl _, hc.le_size⟩
  append_rest := Array.empty_append

theorem Takes.trans {c m r : Cursor} {a b : Text} (h : c.Takes a m) (h' : m.Takes b r) :
    c.Takes (a ++ b) r where
  ahead := h.ahead.trans h'.ahead
  append_rest := by rw [Array.append_assoc, h'.append_rest, h.append_rest]

theorem rest_leaving (u l : List Char) : (leaving (u ++ l).toArray l).rest = l.toArray := by
  rw [← Array.toList_inj, toList_rest (pos_leaving_nonneg u l), remainder_leaving]

/-- A cursor inside its text stands between the characters before it and those it leaves. -/
theorem Inside.exists_leaving {c : Cursor} (hc : c.Inside) :
    ∃ u l, c = leaving (u ++ l).toArray l := by
  obtain ⟨u, hu⟩ := exists_append_of_suffix c.remainder_suffix
  refine ⟨u, c.remainder, ?_⟩
  rw [← hu, leaving_remainder hc.nonneg hc.le_size]

/-- The first characters of what is left are taken by moving behind them. -/
theorem takes_leaving (u taken left : List Char) :
    (leaving (u ++ (taken ++ left)).toArray (taken ++ left)).Takes taken.toArray
      (leaving (u ++ (taken ++ left)).toArray left) where
  ahead := by
    refine ⟨rfl, ?_, ?_⟩ <;>
      simp only [leaving, List.size_toArray, List.length_append] <;> omega
  append_rest := by
    have hleft := rest_leaving (u ++ taken) left
    rw [List.append_assoc] at hleft
    rw [hleft, rest_leaving, List.append_toArray]

end Cursor

namespace Parser

/-- What a success has taken is its value. -/
def Faithful (p : Parser Cursor Text) : Prop :=
  ∀ c s r a s', c.Inside → p c s = .ok (.success r a) s' → c.Takes a r

/-! ## What a success comes from -/

section Success

variable {ι α β : Type} {p : Parser ι α} {i r : ι} {s s' : RunState}

theorem exists_of_map_success {f : α → β} {b : β} (h : map f p i s = .ok (.success r b) s') :
    ∃ a, p i s = .ok (.success r a) s' ∧ f a = b := by
  rw [map_apply] at h
  rcases hx : p i s with ⟨o, t⟩ | ⟨e, t⟩
  · rw [hx] at h
    cases o with
    | success r' a =>
      cases h
      exact ⟨a, rfl, rfl⟩
    | failure j l => cases h
  · rw [hx] at h
    cases h

theorem exists_of_flatMap_success {f : α → Parser ι β} {b : β}
    (h : flatMap p f i s = .ok (.success r b) s') :
    ∃ m a t, p i s = .ok (.success m a) t ∧ f a m t = .ok (.success r b) s' := by
  rw [flatMap_apply] at h
  rcases hx : p i s with ⟨o, t⟩ | ⟨e, t⟩
  · rw [hx] at h
    cases o with
    | success m a => exact ⟨m, a, t, rfl, h⟩
    | failure j l => cases h
  · rw [hx] at h
    cases h

/-- An optional success is one, or nothing has been read. -/
theorem of_optional_success {o : Option α} (h : optional p i s = .ok (.success r o) s') :
    (∃ a, p i s = .ok (.success r a) s' ∧ o = some a) ∨ (r = i ∧ o = none) := by
  rw [optional_apply] at h
  rcases hx : p i s with ⟨x, t⟩ | ⟨e, t⟩
  · rw [hx] at h
    cases x with
    | success m a =>
      cases h
      exact .inl ⟨a, rfl, rfl⟩
    | failure j l =>
      cases h
      exact .inr ⟨rfl, rfl⟩
  · rw [hx] at h
    cases h

/-- A guarded success is one inside the guard. -/
theorem exists_of_guarded_success {g : Nat} {a : α}
    (h : guarded g p i s = .ok (.success r a) s') :
    ∃ t t', p i t = .ok (.success r a) t' := by
  rw [guarded, Run.within_ample] at h
  cases he : (s.guardAt g).enter with
  | error e =>
    rw [he] at h
    cases h
  | ok inside =>
    rw [he] at h
    simp only at h
    rcases hx : p i (s.setGuard g inside) with ⟨o, t⟩ | ⟨e, t⟩
    · rw [hx] at h
      obtain ⟨rfl, -⟩ := EStateM.Result.ok.inj h
      exact ⟨_, t, hx⟩
    · -- a halt becomes a failure or stays a halt
      rw [hx] at h
      cases e with
      | unfinished => cases h
      | fault f => cases f <;> cases h

end Success

/-! ## The combinators -/

section Combinators

variable {p q : Parser Cursor Text} {ps : List (Parser Cursor Text)}

theorem Faithful.append (hp : p.Faithful) (hq : q.Faithful) :
    (map2 (fun a b => a ++ b) p q).Faithful := by
  intro c s r a s' hc h
  obtain ⟨ab, hboth, rfl⟩ := exists_of_map_success h
  obtain ⟨m, a, t, hpc, hmap⟩ := exists_of_flatMap_success hboth
  obtain ⟨b, hqm, rfl⟩ := exists_of_map_success hmap
  have hm := hp c s m a t hc hpc
  exact hm.trans (hq m t r b s' (hm.ahead.inside hc) hqm)

/-- What the rest of a sequence adds to the values collected so far is what it takes. -/
theorem takes_of_sequenceFrom (hps : ∀ p ∈ ps, p.Faithful) {values : Array Text} {c r : Cursor}
    {s s' : RunState} {as : List Text} (hc : c.Inside)
    (h : sequenceFrom values ps c s = .ok (.success r as) s') :
    ∃ more, as = values.toList ++ more ∧ c.Takes (Text.join more) r := by
  induction ps generalizing values c s with
  | nil =>
    rw [sequenceFrom_nil, succeed_apply] at h
    obtain ⟨hsuccess, -⟩ := EStateM.Result.ok.inj h
    obtain ⟨rfl, rfl⟩ := Outcome.success.inj hsuccess
    exact ⟨[], by simp, .refl hc⟩
  | cons p ps ih =>
    obtain ⟨hp, hps⟩ := List.forall_mem_cons.mp hps
    rw [sequenceFrom_cons] at h
    obtain ⟨m, a, t, hpc, hrest⟩ := exists_of_flatMap_success h
    have hm := hp c s m a t hc hpc
    obtain ⟨more, rfl, htakes⟩ := ih hps (hm.ahead.inside hc) hrest
    exact ⟨a :: more, by simp, hm.trans htakes⟩

theorem Faithful.sequence (hps : ∀ p ∈ ps, p.Faithful) :
    (map Text.join (Parser.sequence ps)).Faithful := by
  intro c s r a s' hc h
  obtain ⟨as, hsequence, rfl⟩ := exists_of_map_success h
  obtain ⟨more, rfl, htakes⟩ := takes_of_sequenceFrom hps hc hsequence
  exact htakes

/-- What the rounds of a repetition add to the values collected so far is what they take, and
that includes a last value that has taken nothing. -/
theorem takes_of_repeatFrom (hp : p.Faithful) {minimum rounds : Nat} {values : Array Text}
    {c r : Cursor} {s s' : RunState} {as : List Text} (hc : c.Inside)
    (h : repeatFrom minimum p rounds values c s = .ok (.success r as) s') :
    ∃ more, as = values.toList ++ more ∧ c.Takes (Text.join more) r := by
  induction rounds generalizing values c s with
  | zero => cases h
  | succ rounds ih =>
    rw [repeatFrom_succ] at h
    rcases hpc : p c s with ⟨o, t⟩ | ⟨e, t⟩
    · rw [hpc] at h
      cases o with
      | failure j l =>
        simp only at h
        split at h
        · cases h
        · obtain ⟨hsuccess, -⟩ := EStateM.Result.ok.inj h
          obtain ⟨rfl, rfl⟩ := Outcome.success.inj hsuccess
          exact ⟨[], by simp, .refl hc⟩
      | success m a =>
        have hm := hp c s m a t hc hpc
        simp only at h
        split at h
        · next heq =>
          obtain ⟨hsuccess, -⟩ := EStateM.Result.ok.inj h
          obtain ⟨rfl, rfl⟩ := Outcome.success.inj hsuccess
          rw [heq] at hm
          exact ⟨[a], by simp, by simpa using hm⟩
        · obtain ⟨more, rfl, htakes⟩ := ih (hm.ahead.inside hc) h
          exact ⟨a :: more, by simp, hm.trans htakes⟩
    · rw [hpc] at h
      cases h

theorem Faithful.repeated (hp : p.Faithful) (minimum : Nat) :
    (map Text.join (Parser.repeated minimum p)).Faithful := by
  intro c s r a s' hc h
  obtain ⟨as, hrepeated, rfl⟩ := exists_of_map_success h
  obtain ⟨more, rfl, htakes⟩ := takes_of_repeatFrom hp hc hrepeated
  exact htakes

theorem Faithful.oneOf (hp : p.Faithful) (hps : ∀ q ∈ ps, q.Faithful) :
    (Parser.oneOf p ps).Faithful := by
  intro c s r a s' hc h
  obtain ⟨q, t, hq, heq⟩ := exists_reaches_of_settles (settles_of_success h)
  exact List.forall_mem_cons.mpr ⟨hp, hps⟩ q hq.mem c t r a s' hc (heq.symm.trans h)

theorem Faithful.orEmpty (hp : p.Faithful) :
    (map (fun a => a.getD #[]) (optional p)).Faithful := by
  intro c s r a s' hc h
  obtain ⟨o, hoptional, rfl⟩ := exists_of_map_success h
  rcases of_optional_success hoptional with ⟨a, hpc, rfl⟩ | ⟨rfl, rfl⟩
  · exact hp c s r a s' hc hpc
  · exact .refl hc

theorem Faithful.guarded (hp : p.Faithful) (g : Nat) : (Parser.guarded g p).Faithful := by
  intro c s r a s' hc h
  obtain ⟨t, t', hpc⟩ := exists_of_guarded_success h
  exact hp c t r a t' hc hpc

end Combinators

/-! ## The primitives -/

/-- The parser takes the longest run of admitted characters and nothing else, and fails at
location zero on an empty one unless `allowEmpty` is set. -/
structure TakesRuns (p : Parser Cursor Text) (admitted : Char → Prop) (allowEmpty : Bool) :
    Prop where
  faithful : p.Faithful
  longest : ∀ c s, c.Inside → ∃ a r, c.Takes a r ∧ (∀ ch ∈ a, admitted ch) ∧
    (∀ ch, r.rest[0]? = some ch → ¬ admitted ch) ∧
    p c s = if a.isEmpty && !allowEmpty then .ok (.failure c 0) s else .ok (.success r a) s

variable {ρ : Type} {τ : ρ → Type} (rules : Rules Primitive τ) (calls : Nat)

theorem parse_terminal_apply {α : Type} (t : Primitive α) (c : Cursor) (s : RunState) :
    rules.parse (.terminal t) calls c s = Run.ofExcept (t.read c) s :=
  congrFun (Run.recorded_nil _) s

/-- What a run takes and what it leaves. -/
theorem run_longest (cls : CharClass) (allowEmpty : Bool) (c : Cursor) (s : RunState)
    (hc : c.Inside) :
    ∃ a r, c.Takes a r ∧ (∀ ch ∈ a, cls.admits ch = true) ∧
      (∀ ch, r.rest[0]? = some ch → ¬ cls.admits ch = true) ∧
      rules.parse (.terminal (.run cls allowEmpty)) calls c s
        = if a.isEmpty && !allowEmpty then .ok (.failure c 0) s else .ok (.success r a) s := by
  obtain ⟨u, l, rfl⟩ := hc.exists_leaving
  have htakes := Cursor.takes_leaving u (l.takeWhile cls.admits) (l.dropWhile cls.admits)
  have hrest := Cursor.rest_leaving (u ++ l.takeWhile cls.admits) (l.dropWhile cls.admits)
  rw [List.append_assoc] at hrest
  rw [List.takeWhile_append_dropWhile] at htakes hrest
  refine ⟨_, _, htakes, fun ch hch => ?_, fun ch hch => ?_, ?_⟩
  · exact List.mem_takeWhile_imp (List.mem_toArray.mp hch)
  · rw [hrest, List.getElem?_toArray, ← List.head?_eq_getElem?] at hch
    have hnot := List.head?_dropWhile_not cls.admits l
    rw [hch] at hnot
    simpa using hnot
  · rw [parse_terminal_apply, Primitive.read, Primitive.readRun_leaving, List.isEmpty_toArray]
    split <;> rfl

theorem takesRuns_run (cls : CharClass) (allowEmpty : Bool) {admitted : Char → Prop}
    (hadmits : ∀ ch, cls.admits ch = true ↔ admitted ch) :
    (rules.parse (.terminal (.run cls allowEmpty)) calls).TakesRuns admitted allowEmpty := by
  obtain rfl : (fun ch => cls.admits ch = true) = admitted := funext fun ch => propext (hadmits ch)
  refine ⟨fun c s r a s' hc h => ?_, run_longest rules calls cls allowEmpty⟩
  obtain ⟨a', r', htakes, -, -, heq⟩ := run_longest rules calls cls allowEmpty c s hc
  rw [heq] at h
  split at h
  · cases h
  · cases h
    exact htakes

theorem faithful_literal (chars : Text) :
    (rules.parse (.terminal (.literal chars)) calls).Faithful := by
  intro c s r a s' hc h
  obtain ⟨u, l, rfl⟩ := hc.exists_leaving
  rw [parse_terminal_apply, Primitive.read, Primitive.readLiteral_leaving] at h
  split at h
  · next hprefix =>
    obtain ⟨left, rfl⟩ := List.isPrefixOf_iff_prefix.mp hprefix
    have htakes := Cursor.takes_leaving u chars.toList left
    cases h
    rwa [← Array.length_toList, List.drop_left]
  · cases h

end Parser

/-! ## The arguments of the primitives -/

namespace CharClass

theorem single?_eq_some_iff {s : String} {ch : Char} :
    single? s = some ch ↔ s = String.singleton ch := by
  have htoList : s = String.singleton ch ↔ s.toList = [ch] := by
    rw [← String.toList_inj, String.toList_singleton]
  rw [htoList, single?]
  split
  · next ch' h => simp [h]
  · next h =>
    exact ⟨fun h' => absurd h' (by simp), fun h' => absurd h' (h ch)⟩

/-- The members of a set are the characters that the texts stand for. -/
theorem mem_members {texts : List String} {members : List Char}
    (h : CharClass.members texts = .ok members) {ch : Char} :
    ch ∈ members ↔ String.singleton ch ∈ texts := by
  induction texts generalizing members with
  | nil =>
    cases h
    simp
  | cons s texts ih =>
    rw [CharClass.members] at h
    cases hs : single? s with
    | none =>
      rw [hs] at h
      cases h
    | some first =>
      rw [hs] at h
      cases hrest : CharClass.members texts with
      | error e =>
        rw [hrest] at h
        cases h
      | ok rest =>
        rw [hrest] at h
        obtain rfl : first :: rest = members := Except.ok.inj h
        obtain rfl := single?_eq_some_iff.mp hs
        rw [List.mem_cons, List.mem_cons, ih hrest, String.singleton_inj]

theorem exists_of_range {low high : String} {cls : CharClass}
    (h : range low high = .ok cls) :
    ∃ lo hi, low = String.singleton lo ∧ high = String.singleton hi ∧ cls = .between lo hi := by
  unfold range at h
  split at h
  · next lo hi hlo hhi =>
    split at h
    · cases h
    · cases h
      exact ⟨lo, hi, single?_eq_some_iff.mp hlo, single?_eq_some_iff.mp hhi, rfl⟩
  · cases h

end CharClass

/-! ## Grammars -/

/-- A property of parsers that is kept when the texts that they read are joined in order, chosen
between, left out or nested. -/
structure Parser.ClosedUnderJoining (F : Parser Cursor Text → Prop) : Prop where
  appended : ∀ {p q}, F p → F q → F (map2 (fun a b => a ++ b) p q)
  inSequence : ∀ {ps : List (Parser Cursor Text)}, (∀ p ∈ ps, F p) →
    F (map Text.join (sequence ps))
  anyNumber : ∀ {p}, F p → F (map Text.join (many p))
  oneOrMore : ∀ {p}, F p → F (map Text.join (many1 p))
  chosen : ∀ {p} {ps : List (Parser Cursor Text)}, F p → (∀ q ∈ ps, F q) → F (oneOf p ps)
  leftOut : ∀ {p}, F p → F (map (fun a => a.getD #[]) (optional p))
  nested : ∀ {p} (g : Nat), F p → F (guarded g p)

section Grammars

variable {Λ : Type → Type} [Terminal Λ Cursor] {ρ : Type}

/-- The expression joins what faithful terminals and rules read, in order and all of it. -/
inductive Expr.Lossless : Expr Λ (fun _ : ρ => Text) Text → Prop where
  | terminal {t : Λ Text}
      (h : Parser.Faithful fun c => Run.recorded (Terminal.read t c)) : Lossless (.terminal t)
  | append {p q : Expr Λ (fun _ : ρ => Text) Text} (hp : Lossless p) (hq : Lossless q) :
      Lossless (.map2 (fun a b => a ++ b) p q)
  | sequence {n : Nat} {ps : Fin n → Expr Λ (fun _ : ρ => Text) Text}
      (h : ∀ k, Lossless (ps k)) : Lossless (.map Text.join (.sequence n ps))
  | repeated {minimum : Nat} {p : Expr Λ (fun _ : ρ => Text) Text} (h : Lossless p) :
      Lossless (.map Text.join (.repeated minimum p))
  | oneOf {n : Nat} {p : Expr Λ (fun _ : ρ => Text) Text}
      {ps : Fin n → Expr Λ (fun _ : ρ => Text) Text} (hp : Lossless p)
      (hps : ∀ k, Lossless (ps k)) : Lossless (.oneOf p n ps)
  | orEmpty {p : Expr Λ (fun _ : ρ => Text) Text} (h : Lossless p) :
      Lossless (.map (fun a => a.getD #[]) (.optional p))
  | ref (r : ρ) : Lossless (.ref r)
  | guarded {g : Nat} {p : Expr Λ (fun _ : ρ => Text) Text} (h : Lossless p) :
      Lossless (.guarded g p)

variable {ps : List (Expr Λ (fun _ : ρ => Text) Text)} {p : Expr Λ (fun _ : ρ => Text) Text}

theorem Expr.Lossless.sequenceOf (h : ∀ p ∈ ps, p.Lossless) :
    (Expr.map Text.join (.sequenceOf ps)).Lossless :=
  .sequence fun k => h _ (List.get_mem ps k)

theorem Expr.Lossless.firstOf (hp : p.Lossless) (hps : ∀ q ∈ ps, q.Lossless) :
    (Expr.firstOf p ps).Lossless :=
  .oneOf hp fun k => hps _ (List.get_mem ps k)

theorem Expr.Lossless.eval {e : Expr Λ (fun _ : ρ => Text) Text} (h : e.Lossless)
    {call : ρ → Parser Cursor Text} (hcall : ∀ r, (call r).Faithful) :
    (e.eval call).Faithful := by
  induction h with
  | terminal h => exact h
  | append _ _ hp hq => exact hp.append hq
  | sequence _ hps => exact .sequence (List.forall_mem_ofFn_iff.mpr hps)
  | repeated _ hp => exact hp.repeated _
  | oneOf _ _ hp hps => exact hp.oneOf (List.forall_mem_ofFn_iff.mpr hps)
  | orEmpty _ hp => exact hp.orEmpty
  | ref r => exact hcall r
  | guarded _ hp => exact hp.guarded _

/-- Rules that join texts are faithful, by induction on the calls. -/
theorem Rules.call_faithful {rules : Rules Λ (fun _ : ρ => Text)}
    (hrules : ∀ r, (rules r).Lossless) (calls : Nat) (r : ρ) :
    Parser.Faithful (rules.call calls r) := by
  induction calls generalizing r with
  | zero => exact fun c s r a s' _ h => nomatch h
  | succ calls ih => exact (hrules r).eval ih

end Grammars

/-- **Nothing is lost.**  Runs of characters of a set, of characters outside a set and of
characters of a range are read up to the first character that does not belong to them, whatever
texts the set or the range is made of; a run that is empty is a failure at location zero, except
for characters outside a set.  These primitives are faithful, and so are literals.

The combinators keep faithful parsers faithful as long as they join what these read: one after
the other, any number of times or once at least, the first that reads, the empty text for one
that does not, under a guard, and by a reference.  So every grammar is faithful that is made of
faithful terminals in these ways. -/
theorem reading_faithful :
    (∀ {ρ : Type} {τ : ρ → Type} (rules : Rules Primitive τ) (calls : Nat),
      (∀ texts members, CharClass.members texts = .ok members →
        (rules.parse (.run (.anyOf members)) calls).TakesRuns
          (fun ch => String.singleton ch ∈ texts) false ∧
        (rules.parse (.runOrEmpty (.noneOf members)) calls).TakesRuns
          (fun ch => String.singleton ch ∉ texts) true) ∧
      (∀ low high cls, CharClass.range low high = .ok cls →
        ∃ lo hi, low = String.singleton lo ∧ high = String.singleton hi ∧
          (rules.parse (.run cls) calls).TakesRuns (fun ch => lo ≤ ch ∧ ch ≤ hi) false) ∧
      (rules.parse .whitespace calls).TakesRuns (fun ch => ch ∈ [' ', '\t', '\n']) false ∧
      ∀ w, (rules.parse (.literal w) calls).Faithful) ∧
    Parser.ClosedUnderJoining Parser.Faithful ∧
    ∀ {Λ : Type → Type} [Terminal Λ Cursor] {ρ : Type} (rules : Rules Λ (fun _ : ρ => Text)),
      (∀ r calls, (rules.parse (rules r) calls).Faithful →
        (rules.parse (.ref r) (calls + 1)).Faithful) ∧
      ((∀ r, (rules r).Lossless) → ∀ e : Expr Λ (fun _ : ρ => Text) Text, e.Lossless →
        ∀ calls, (rules.parse e calls).Faithful) := by
  refine ⟨fun rules calls => ⟨fun texts members h => ⟨?_, ?_⟩, fun low high cls h => ?_, ?_,
    fun w => ?_⟩, ?_, fun rules => ⟨fun r calls h => h, fun hrules e he calls => ?_⟩⟩
  · exact Parser.takesRuns_run rules calls _ _ fun ch => by
      rw [CharClass.admits_anyOf, CharClass.mem_members h]
  · exact Parser.takesRuns_run rules calls _ _ fun ch => by
      rw [CharClass.admits_noneOf, CharClass.mem_members h]
  · obtain ⟨lo, hi, rfl, rfl, rfl⟩ := CharClass.exists_of_range h
    refine ⟨lo, hi, rfl, rfl, ?_⟩
    exact Parser.takesRuns_run rules calls _ _ fun ch => CharClass.admits_between lo hi ch
  · exact Parser.takesRuns_run rules calls _ _ fun ch => CharClass.admits_anyOf _ ch
  · exact Parser.faithful_literal rules calls _
  · exact {
      appended := fun hp hq => hp.append hq
      inSequence := fun hps => .sequence hps
      anyNumber := fun hp => hp.repeated 0
      oneOrMore := fun hp => hp.repeated 1
      chosen := fun hp hps => hp.oneOf hps
      leftOut := fun hp => hp.orEmpty
      nested := fun g hp => hp.guarded g }
  · exact he.eval (Rules.call_faithful hrules calls)

/-- Letters in any number of brackets, as a text. -/
def bracketed : Rules Primitive (fun _ : Unit => Text) := fun _ =>
  .guarded 0 (.firstOf (.map Text.join (.sequenceOf [.literal "(", .ref (), .literal ")"]))
    [.run (.anyOf ['a', 'b'])])

theorem bracketed_lossless (r : Unit) : (bracketed r).Lossless := by
  have hliteral : ∀ w, Expr.Lossless (ρ := Unit) (.literal w) := fun w =>
    .terminal (Parser.faithful_literal noRules 0 (Text.ofString w))
  refine .guarded (.firstOf (.sequenceOf fun p hp => ?_) fun p hp => ?_)
  · simp only [List.mem_cons, List.not_mem_nil, or_false] at hp
    rcases hp with rfl | rfl | rfl
    · exact hliteral "("
    · exact .ref ()
    · exact hliteral ")"
  · obtain rfl := List.mem_singleton.mp hp
    exact .terminal (Parser.takesRuns_run noRules 0 (.anyOf ['a', 'b']) false
      fun ch => Iff.rfl).faithful

/-- From `((ab))c` the brackets are taken with what they hold. -/
theorem bracketed_reading_faithful :
    bracketed.parse (.ref ()) 3 (Cursor.mk #['(', '(', 'a', 'b', ')', ')', 'c'] 0)
        { guards := #[{ maxDepth := 3 }] }
      = .ok (.success (Cursor.mk #['(', '(', 'a', 'b', ')', ')', 'c'] 6)
          #['(', '(', 'a', 'b', ')', ')']) { guards := #[{ maxDepth := 3 }] } ∧
    (Cursor.mk #['(', '(', 'a', 'b', ')', ')', 'c'] 0).Takes #['(', '(', 'a', 'b', ')', ')']
      (Cursor.mk #['(', '(', 'a', 'b', ')', ')', 'c'] 6) ∧
    CharClass.members ["a", "b"] = .ok ['a', 'b'] ∧
    (noRules.parse (.run (.anyOf ['a', 'b'])) 0).TakesRuns
      (fun ch => String.singleton ch ∈ ["a", "b"]) false := by
  have hfaithful := (reading_faithful.2.2 bracketed).2 bracketed_lossless (.ref ()) (.ref ()) 3
  exact ⟨rfl, hfaithful _ { guards := #[{ maxDepth := 3 }] } _ _ _ ⟨by decide, by decide⟩ rfl, rfl,
    ((reading_faithful.1 noRules 0).1 ["a", "b"] ['a', 'b'] rfl).1⟩

end Descent
