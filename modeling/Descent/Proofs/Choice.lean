import Descent.Json.Grammar
import Descent.Proofs.Farthest

/-!
# Which alternative a choice answers with

A choice runs its alternatives on one input, each in the state that the one before it left.
Two things can happen.  Either an alternative is reached that does not fail, by a success or by
a halt, and then the choice ends as this one does: what the alternatives after it would do has
no part in it (`Reaches`).  Or all of them fail in turn, and the choice reports the first of
their failures that has the largest location (`FailInTurn`, `farthest`).

A choice within a choice is one more alternative that answers in this way.  It reports the
farthest of its own failures, and since the earlier of two equal locations is kept on both
levels, the farthest of the farthest is the farthest of all (`farthest_cons_eq`).  So the inner
alternatives may be listed in its place.
-/

namespace Descent

namespace Parser

variable {ι α : Type}

/-! ## Failing in turn -/

/-- The parsers of a list fail on `i` one after the other from the state `s`: their failures in
order, and the state after the last of them. -/
inductive FailInTurn (i : ι) :
    List (Parser ι α) → RunState → List (ι × Int) → RunState → Prop where
  | nil {s : RunState} : FailInTurn i [] s [] s
  | cons {p : Parser ι α} {ps : List (Parser ι α)} {s s' t : RunState} {j : ι} {l : Int}
      {failures : List (ι × Int)} (h : p i s = .ok (.failure j l) s')
      (hrest : FailInTurn i ps s' failures t) :
      FailInTurn i (p :: ps) s ((j, l) :: failures) t

/-- From the state `s` the parser `q` of a list is reached in the state `t`: those before it
fail on `i` in turn. -/
inductive Reaches (i : ι) :
    List (Parser ι α) → RunState → Parser ι α → RunState → Prop where
  | here {q : Parser ι α} {ps : List (Parser ι α)} {s : RunState} : Reaches i (q :: ps) s q s
  | later {p q : Parser ι α} {ps : List (Parser ι α)} {s s' t : RunState} {j : ι} {l : Int}
      (h : p i s = .ok (.failure j l) s') (hrest : Reaches i ps s' q t) :
      Reaches i (p :: ps) s q t

/-- The run of a parser ends in a success or in a halt. -/
def Settles (p : Parser ι α) (i : ι) (s : RunState) : Prop :=
  ∀ j l s', p i s ≠ .ok (.failure j l) s'

variable {i j : ι} {l : Int} {s t : RunState} {p q : Parser ι α} {ps qs : List (Parser ι α)}
  {failures : List (ι × Int)}

theorem settles_of_success {r : ι} {a : α} {s' : RunState}
    (h : p i s = .ok (.success r a) s') : p.Settles i s := by
  intro j l s'' h'
  rw [h] at h'
  cases h'

theorem settles_of_error {e : Halt} {s' : RunState} (h : p i s = .error e s') :
    p.Settles i s := by
  intro j l s'' h'
  rw [h] at h'
  cases h'

/-- A run that does not settle fails. -/
theorem settles_or_fails (p : Parser ι α) (i : ι) (s : RunState) :
    p.Settles i s ∨ ∃ j l s', p i s = .ok (.failure j l) s' := by
  rcases h : p i s with ⟨o, s'⟩ | ⟨e, s'⟩
  · cases o with
    | success r a => exact .inl (settles_of_success h)
    | failure j l => exact .inr ⟨j, l, s', rfl⟩
  · exact .inl (settles_of_error h)

/-- Either all parsers of a list fail in turn, or one is reached that settles. -/
theorem failInTurn_or_reaches (i : ι) (ps : List (Parser ι α)) (s : RunState) :
    (∃ failures t, FailInTurn i ps s failures t) ∨ ∃ q t, Reaches i ps s q t ∧ q.Settles i t := by
  induction ps generalizing s with
  | nil => exact .inl ⟨[], s, .nil⟩
  | cons p ps ih =>
    rcases settles_or_fails p i s with hp | ⟨j, l, s', h⟩
    · exact .inr ⟨p, s, .here, hp⟩
    · rcases ih s' with ⟨failures, t, hps⟩ | ⟨q, t, hq, hsettles⟩
      · exact .inl ⟨(j, l) :: failures, t, .cons h hps⟩
      · exact .inr ⟨q, t, .later h hq, hsettles⟩

/-- What stands behind a parser has no part in whether it is reached. -/
theorem Reaches.append (h : Reaches i ps s q t) (rest : List (Parser ι α)) :
    Reaches i (ps ++ rest) s q t := by
  induction h with
  | here => exact .here
  | later h _ ih => exact .later h ih

theorem Reaches.mem (h : Reaches i ps s q t) : q ∈ ps := by
  induction h with
  | here => exact List.mem_cons_self
  | later _ _ ih => exact List.mem_cons_of_mem _ ih

/-! ## What the choice does then -/

theorem oneOfFrom_cons_of_settles (hp : p.Settles i s) (ps : List (Parser ι α)) (j : ι)
    (l : Int) : oneOfFrom j l (p :: ps) i s = p i s := by
  rw [oneOfFrom_cons]
  rcases hx : p i s with ⟨o, s'⟩ | ⟨e, s'⟩
  · cases o with
    | success r a => rfl
    | failure j' l' => exact absurd hx (hp j' l' s')
  · rfl

theorem oneOf_of_settles (hp : p.Settles i s) (ps : List (Parser ι α)) :
    oneOf p ps i s = p i s := by
  rw [oneOf_apply]
  rcases hx : p i s with ⟨o, s'⟩ | ⟨e, s'⟩
  · cases o with
    | success r a => rfl
    | failure j l => exact absurd hx (hp j l s')
  · rfl

/-- The rest of a choice ends as the alternative that is reached and settles. -/
theorem Reaches.oneOfFrom_eq (h : Reaches i ps s q t) (hq : q.Settles i t) (j : ι) (l : Int) :
    oneOfFrom j l ps i s = q i t := by
  induction h generalizing j l with
  | here => exact oneOfFrom_cons_of_settles hq _ j l
  | later h _ ih =>
    rw [oneOfFrom_cons, h]
    simp only
    split
    · exact ih hq _ _
    · exact ih hq _ _

theorem Reaches.oneOf_eq (h : Reaches i (p :: ps) s q t) (hq : q.Settles i t) :
    oneOf p ps i s = q i t := by
  cases h with
  | here => exact oneOf_of_settles hq ps
  | later h hrest =>
    rw [oneOf_apply, h]
    exact hrest.oneOfFrom_eq hq _ _

/-- Alternatives that fail in turn leave the rest of the choice with the farthest failure so
far. -/
theorem FailInTurn.oneOfFrom_append (h : FailInTurn i ps s failures t)
    (rest : List (Parser ι α)) (best : ι × Int) :
    oneOfFrom best.1 best.2 (ps ++ rest) i s
      = oneOfFrom (farthest best failures).1 (farthest best failures).2 rest i t := by
  induction h generalizing best with
  | nil => rfl
  | @cons p ps s s' t j l failures h _ ih =>
    rw [List.cons_append, oneOfFrom_cons, h, farthest_cons]
    simp only
    split
    · exact ih (j, l)
    · exact ih best

theorem FailInTurn.oneOf_append {f : ι × Int} (h : FailInTurn i (p :: ps) s (f :: failures) t)
    (rest : List (Parser ι α)) :
    oneOf p (ps ++ rest) i s
      = oneOfFrom (farthest f failures).1 (farthest f failures).2 rest i t := by
  obtain ⟨j, l⟩ := f
  cases h with
  | cons h hrest =>
    rw [oneOf_apply, h]
    exact hrest.oneOfFrom_append rest (j, l)

/-- A choice settles with the alternative that does. -/
theorem Reaches.settles (h : Reaches i (p :: ps) s q t) (hq : q.Settles i t) :
    (oneOf p ps).Settles i s := by
  unfold Settles
  rw [h.oneOf_eq hq]
  exact hq

theorem FailInTurn.oneOf_eq {f : ι × Int} (h : FailInTurn i (p :: ps) s (f :: failures) t) :
    oneOf p ps i s = .ok (.failure (farthest f failures).1 (farthest f failures).2) t := by
  have hnil := h.oneOf_append []
  rwa [List.append_nil] at hnil

/-- A choice of which all alternatives fail has a failure for each of them. -/
theorem oneOf_cases (p : Parser ι α) (ps : List (Parser ι α)) (i : ι) (s : RunState) :
    (∃ f failures t, FailInTurn i (p :: ps) s (f :: failures) t) ∨
      ∃ q t, Reaches i (p :: ps) s q t ∧ q.Settles i t := by
  rcases failInTurn_or_reaches i (p :: ps) s with ⟨_, t, h⟩ | h
  · cases h with
    | cons h hrest => exact .inl ⟨_, _, t, .cons h hrest⟩
  · exact .inr h

/-- A choice that settles ends as an alternative that is reached. -/
theorem exists_reaches_of_settles (h : (oneOf p ps).Settles i s) :
    ∃ q t, Reaches i (p :: ps) s q t ∧ oneOf p ps i s = q i t := by
  rcases oneOf_cases p ps i s with ⟨f, failures, t, hf⟩ | ⟨q, t, hq, hsettles⟩
  · exact absurd hf.oneOf_eq (h _ _ t)
  · exact ⟨q, t, hq, hq.oneOf_eq hsettles⟩

/-! ## A choice within a choice -/

theorem oneOfFrom_append_congr {xs ys : List (Parser ι α)}
    (h : ∀ j l, oneOfFrom j l xs = oneOfFrom j l ys) (ps : List (Parser ι α)) (j : ι) (l : Int) :
    oneOfFrom j l (ps ++ xs) = oneOfFrom j l (ps ++ ys) := by
  induction ps generalizing j l with
  | nil => exact h j l
  | cons p ps ih =>
    funext i s
    rw [List.cons_append, List.cons_append, oneOfFrom_cons, oneOfFrom_cons]
    simp only [ih]

/-- In the rest of a choice the alternatives of a choice may stand in its place. -/
theorem oneOfFrom_oneOf_cons (q : Parser ι α) (qs rest : List (Parser ι α)) (j : ι) (l : Int) :
    oneOfFrom j l (oneOf q qs :: rest) = oneOfFrom j l (q :: qs ++ rest) := by
  funext i s
  rcases oneOf_cases q qs i s with ⟨f, failures, t, hf⟩ | ⟨q', t, hq, hsettles⟩
  · rw [oneOfFrom_cons, hf.oneOf_eq, hf.oneOfFrom_append rest (j, l), farthest_cons_eq]
    simp only
    split <;> rfl
  · rw [oneOfFrom_cons_of_settles (hq.settles hsettles), hq.oneOf_eq hsettles]
    exact ((hq.append rest).oneOfFrom_eq hsettles j l).symm

/-- The alternatives of a choice may stand in its place behind others. -/
theorem oneOf_append_oneOf_cons (p : Parser ι α) (ps : List (Parser ι α)) (q : Parser ι α)
    (qs rest : List (Parser ι α)) :
    oneOf p (ps ++ oneOf q qs :: rest) = oneOf p (ps ++ (q :: qs ++ rest)) := by
  funext i s
  rw [oneOf_apply, oneOf_apply]
  simp only [oneOfFrom_append_congr (oneOfFrom_oneOf_cons q qs rest) ps]

/-- The alternatives of a choice may stand in its place before others. -/
theorem oneOf_oneOf (p : Parser ι α) (ps rest : List (Parser ι α)) :
    oneOf (oneOf p ps) rest = oneOf p (ps ++ rest) := by
  funext i s
  rcases oneOf_cases p ps i s with ⟨f, failures, t, hf⟩ | ⟨q, t, hq, hsettles⟩
  · rw [oneOf_apply, hf.oneOf_eq, hf.oneOf_append rest]
  · rw [oneOf_of_settles (hq.settles hsettles), hq.oneOf_eq hsettles]
    exact ((hq.append rest).oneOf_eq hsettles).symm

/-! ## Both together -/

/-- A choice succeeds as the alternative does that is reached, and halts as it does. -/
theorem oneOf_eq_iff_of_settles {x : EStateM.Result Halt RunState (Outcome ι α)}
    (hx : ∀ j l s', x ≠ .ok (.failure j l) s') :
    oneOf p ps i s = x ↔ ∃ q t, Reaches i (p :: ps) s q t ∧ q i t = x := by
  constructor
  · rintro rfl
    obtain ⟨q, t, hq, heq⟩ := exists_reaches_of_settles hx
    exact ⟨q, t, hq, heq.symm⟩
  · rintro ⟨q, t, hq, rfl⟩
    exact hq.oneOf_eq hx

/-- A choice fails if its alternatives fail in turn, with the first of the largest locations. -/
theorem oneOf_eq_failure_iff {s' : RunState} :
    oneOf p ps i s = .ok (.failure j l) s' ↔
      ∃ earlier later, FailInTurn i (p :: ps) s (earlier ++ (j, l) :: later) s' ∧
        (∀ f ∈ earlier, f.2 < l) ∧ ∀ f ∈ later, f.2 ≤ l := by
  constructor
  · intro h
    rcases oneOf_cases p ps i s with ⟨f, failures, t, hf⟩ | ⟨q, t, hq, hsettles⟩
    · rw [hf.oneOf_eq] at h
      obtain ⟨hfar, rfl⟩ := EStateM.Result.ok.inj h
      obtain ⟨hj, hl⟩ := Outcome.failure.inj hfar
      have hfar : farthest f failures = (j, l) := Prod.ext hj hl
      obtain ⟨earlier, later, hsplit, hearlier⟩ := exists_farthest f failures
      have hle := le_farthest f failures
      rw [hfar] at hsplit hearlier hle
      refine ⟨earlier, later, hsplit ▸ hf, hearlier, fun g hg => hle g ?_⟩
      rw [hsplit]
      exact List.mem_append_right _ (List.mem_cons_of_mem _ hg)
    · exact absurd h (hq.settles hsettles j l s')
  · rintro ⟨earlier, later, hf, hearlier, hlater⟩
    obtain ⟨f, failures, hsplit⟩ : ∃ f failures, f :: failures = earlier ++ (j, l) :: later := by
      cases earlier <;> exact ⟨_, _, rfl⟩
    rw [← hsplit] at hf
    rw [hf.oneOf_eq, farthest_eq_of_split hsplit hearlier hlater]

/-- **What a choice answers.**  A choice ends with a success or with a halt exactly when an
alternative is reached that ends so, and it ends as this one does, also in the same state; the
alternatives after it have no part in that.  It fails exactly when all alternatives fail in
turn, and then with one of their failures as it is: those before have smaller locations, and
those after have none that is larger.

So a choice in a choice, in the first place or in the last one, may be replaced by its
alternatives.  The alternatives for a number and for a truth value are such choices, and a JSON
value is read as if what they consist of were listed instead. -/
theorem oneOf_answers (p : Parser ι α) (ps : List (Parser ι α)) :
    (∀ i s,
      (∀ r a s', oneOf p ps i s = .ok (.success r a) s' ↔
        ∃ q t, Reaches i (p :: ps) s q t ∧ q i t = .ok (.success r a) s') ∧
      (∀ e s', oneOf p ps i s = .error e s' ↔
        ∃ q t, Reaches i (p :: ps) s q t ∧ q i t = .error e s') ∧
      ∀ j l s', oneOf p ps i s = .ok (.failure j l) s' ↔
        ∃ earlier later, FailInTurn i (p :: ps) s (earlier ++ (j, l) :: later) s' ∧
          (∀ f ∈ earlier, f.2 < l) ∧ ∀ f ∈ later, f.2 ≤ l) ∧
    (∀ (q : Parser ι α) (qs : List (Parser ι α)),
      oneOf (oneOf p ps) [oneOf q qs] = oneOf p (ps ++ q :: qs) ∧
        oneOf p (ps ++ [oneOf q qs]) = oneOf p (ps ++ q :: qs)) ∧
    ∀ {ρ : Type} {τ : ρ → Type} (rules : Rules Primitive τ) (inner : Expr Primitive τ Json.Value)
      (g calls : Nat),
      rules.parse (ι := Cursor) (Json.Grammar.value inner g) calls
        = rules.parse (.guarded g (.firstOf Json.Grammar.string
            [Json.Grammar.fractional, Json.Grammar.integer, Json.Grammar.object inner,
              Json.Grammar.array inner, Json.Grammar.null,
              .map (fun _ => .bool true) (.literal "true"),
              .map (fun _ => .bool false) (.literal "false")])) calls := by
  have hlast : ∀ q qs, oneOf p (ps ++ [oneOf q qs]) = oneOf p (ps ++ q :: qs) := fun q qs => by
    rw [oneOf_append_oneOf_cons, List.append_nil]
  refine ⟨fun i s => ⟨fun r a s' => ?_, fun e s' => ?_, fun j l s' => oneOf_eq_failure_iff⟩,
    fun q qs => ⟨?_, hlast q qs⟩, fun rules inner g calls => ?_⟩
  · exact oneOf_eq_iff_of_settles fun j l s' => by simp
  · exact oneOf_eq_iff_of_settles fun j l s' => by simp
  · rw [oneOf_oneOf, hlast]
  · -- first the numbers are listed, behind the strings, and then the truth values, in the end
    refine congrArg (Parser.guarded g) ?_
    simp only [Expr.eval_firstOf, List.map_cons, List.map_nil, Json.Grammar.number,
      Json.Grammar.bool]
    refine (oneOf_append_oneOf_cons _ [] _ _ _).trans ?_
    refine (oneOf_append_oneOf_cons _ [_, _, _, _, _] _ _ []).trans ?_
    rfl

end Parser

/-- A word that is read as a whole. -/
def word (w : String) : Parser Cursor Text := noRules.parse (.literal w) 0

/-- On `abx` the words `b` and `ax` and the word `bc` behind an `a` all fail.  The last two
failures have the location 2, the one at the start and the other behind the `a`, and the first
of them is reported, however the three are grouped. -/
theorem words_answers :
    Parser.oneOf (word "b") [word "ax", .preceded (word "a") (word "bc")]
        { source := #['a', 'b', 'x'] } {}
      = .ok (.failure { source := #['a', 'b', 'x'] } 2) {} ∧
    Parser.oneOf (.oneOf (word "b") [word "ax"]) [.oneOf (.preceded (word "a") (word "bc")) []]
      = Parser.oneOf (word "b") [word "ax", .preceded (word "a") (word "bc")] := by
  refine ⟨?_, ((Parser.oneOf_answers (word "b") [word "ax"]).2.1 _ []).1⟩
  have h := (Parser.oneOf_answers (word "b")
    [word "ax", .preceded (word "a") (word "bc")]).1 { source := #['a', 'b', 'x'] } {}
  refine (h.2.2 _ _ _).mpr ⟨[({ source := #['a', 'b', 'x'] }, 1)],
    [({ source := #['a', 'b', 'x'], pos := 1 }, 2)], ?_, by decide, by decide⟩
  exact .cons rfl (.cons rfl (.cons rfl .nil))

end Descent
