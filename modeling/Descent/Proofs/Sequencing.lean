import Descent.Parser.Sequence

/-!
# Two ways to run parsers one after the other

A sequence is a loop that collects values.  The other way is to go on, after each success, with
a parser that keeps the value: `both` pairs two values in this way, and a list of parsers is
read into pairs nested to the right (`Parser.pairs`).  Flattened to a list they are the values
of the loop (`Parser.sequence_eq_map_pairs`), on every input and from every state, also where a
parser fails or halts.

What the loop answers is said by the parsers themselves.  Either they succeed in turn, each on
what the one before it left, or one of them is reached that does not succeed; then the sequence
ends as this one does, in the same state, and those after it have no part in that
(`Parser.SucceedInTurn`, `Parser.SucceedUpTo`).

Running one list of parsers behind another is running the two lists and joining their values
(`Parser.sequence_append`).  The combinators for two parsers are a sequence of two whose values
are taken apart again (`Parser.chain_two`); the two values may be of different types, and then
the list holds either of them.
-/

namespace Descent
namespace Parser

variable {ι α β γ δ : Type}

/-! ## Changing values and going on -/

theorem map_flatMap (g : β → γ) (p : Parser ι α) (f : α → Parser ι β) :
    map g (flatMap p f) = flatMap p fun a => map g (f a) := by
  simp only [map_eq_flatMap, flatMap_flatMap]

theorem flatMap_map (f : α → β) (p : Parser ι α) (g : β → Parser ι γ) :
    flatMap (map f p) g = flatMap p fun a => g (f a) := by
  simp only [map_eq_flatMap, flatMap_flatMap, succeed_flatMap]

theorem map_map (g : β → γ) (f : α → β) (p : Parser ι α) :
    map g (map f p) = map (fun a => g (f a)) p := by
  simp only [map_eq_flatMap, flatMap_flatMap, succeed_flatMap]

@[simp] theorem map_succeed (f : α → β) (a : α) :
    map f (succeed a : Parser ι α) = succeed (f a) := rfl

/-- To combine two values is to go on from the first with a parser that knows it. -/
theorem map2_eq_flatMap (f : α → β → γ) (p : Parser ι α) (q : Parser ι β) :
    map2 f p q = flatMap p fun a => map (f a) q := by
  simp only [map2, both, map_flatMap, map_map]

theorem map_map2 (g : γ → δ) (f : α → β → γ) (p : Parser ι α) (q : Parser ι β) :
    map g (map2 f p q) = map2 (fun a b => g (f a b)) p q := by
  simp only [map2, map_map]

/-! ## Values in nested pairs -/

/-- So many values in pairs nested to the right, with nothing behind the last of them. -/
def Pairs (α : Type) : Nat → Type
  | 0 => Unit
  | n + 1 => α × Pairs α n

/-- The values in nested pairs, in order. -/
def Pairs.toList : {n : Nat} → Pairs α n → List α
  | 0, _ => []
  | _ + 1, (a, rest) => a :: rest.toList

@[simp] theorem Pairs.toList_succ {n : Nat} (a : α) (rest : Pairs α n) :
    Pairs.toList (n := n + 1) (a, rest) = a :: rest.toList := rfl

/-- Run each parser of a list together with all those after it. -/
def pairs : (ps : List (Parser ι α)) → Parser ι (Pairs α ps.length)
  | [] => succeed ()
  | p :: ps => both p (pairs ps)

variable {ps qs : List (Parser ι α)}

theorem map_pairs_cons (p : Parser ι α) (ps : List (Parser ι α))
    (f : Pairs α (ps.length + 1) → β) :
    map f (pairs (p :: ps)) = flatMap p fun a => map (fun v => f (a, v)) (pairs ps) := by
  have h : ∀ a, map f (map (fun v => (a, v)) (pairs ps)) = map (fun v => f (a, v)) (pairs ps) :=
    fun a => map_map f (fun v => (a, v)) (pairs ps)
  exact (map_flatMap f p _).trans (congrArg (flatMap p) (funext h))

/-- The loop adds the values of the nested pairs to those that it has collected. -/
theorem sequenceFrom_eq_map_pairs (values : Array α) (ps : List (Parser ι α)) :
    sequenceFrom values ps = map (fun v => values.toList ++ v.toList) (pairs ps) := by
  induction ps generalizing values with
  | nil =>
    show succeed values.toList = succeed (values.toList ++ [])
    rw [List.append_nil]
  | cons p ps ih =>
    rw [sequenceFrom_cons, map_pairs_cons]
    simp only [ih, Array.toList_push, List.append_assoc, List.singleton_append,
      Pairs.toList_succ]

/-- The loop collects the values of the nested pairs. -/
theorem sequence_eq_map_pairs (ps : List (Parser ι α)) :
    sequence ps = map Pairs.toList (pairs ps) :=
  sequenceFrom_eq_map_pairs #[] ps

theorem sequence_nil : sequence ([] : List (Parser ι α)) = succeed [] := rfl

theorem sequence_cons (p : Parser ι α) (ps : List (Parser ι α)) :
    sequence (p :: ps) = map2 List.cons p (sequence ps) := by
  rw [sequence_eq_map_pairs, sequence_eq_map_pairs, map_pairs_cons, map2_eq_flatMap]
  simp only [map_map, Pairs.toList_succ]

/-- One list of parsers behind another has the values of both. -/
theorem sequence_append (ps qs : List (Parser ι α)) :
    sequence (ps ++ qs) = map2 (· ++ ·) (sequence ps) (sequence qs) := by
  induction ps with
  | nil =>
    rw [List.nil_append, sequence_nil, map2_eq_flatMap, succeed_flatMap]
    simp only [List.nil_append, sequence_eq_map_pairs, map_map]
  | cons p ps ih =>
    -- each side is one parser after the other, grouped to the right, with one value in the end
    rw [List.cons_append, sequence_cons, sequence_cons, ih]
    simp only [map2_eq_flatMap, map_flatMap, flatMap_flatMap, flatMap_map, map_map,
      List.cons_append]

/-! ## Succeeding in turn -/

/-- How a run ends that does not succeed.  It says nothing of the type of the values. -/
inductive Stop (ι : Type) where
  | failure (input : ι) (location : Int)
  | halt (e : Halt)

/-- The end of a run that stops in the state `t`. -/
def Stop.result (t : RunState) : Stop ι → EStateM.Result Halt RunState (Outcome ι α)
  | .failure j l => .ok (.failure j l) t
  | .halt e => .error e t

/-- A run succeeds or stops. -/
theorem success_or_stop (x : EStateM.Result Halt RunState (Outcome ι α)) :
    (∃ r a t, x = .ok (.success r a) t) ∨ ∃ stop t, x = Stop.result t stop := by
  rcases x with ⟨o, t⟩ | ⟨e, t⟩
  · cases o with
    | success r a => exact .inl ⟨r, a, t, rfl⟩
    | failure j l => exact .inr ⟨.failure j l, t, rfl⟩
  · exact .inr ⟨.halt e, t, rfl⟩

theorem Stop.result_ne_success {stop : Stop ι} {t t' : RunState} {r : ι} {a : α} :
    stop.result t ≠ .ok (.success r a) t' := by
  cases stop <;> simp [result]

theorem Stop.result_inj {stop stop' : Stop ι} {t t' : RunState} :
    (stop.result t : EStateM.Result Halt RunState (Outcome ι α)) = stop'.result t' ↔
      stop = stop' ∧ t = t' := by
  cases stop <;> cases stop' <;> simp [result, and_assoc]

/-- The parsers of a list succeed one after the other, each on what the one before it left: from
`i` in the state `s`, with these values, to `r` in the state `t`. -/
inductive SucceedInTurn :
    List (Parser ι α) → ι → RunState → List α → ι → RunState → Prop where
  | nil {i : ι} {s : RunState} : SucceedInTurn [] i s [] i s
  | cons {p : Parser ι α} {ps : List (Parser ι α)} {i j r : ι} {s s' t : RunState} {a : α}
      {as : List α} (h : p i s = .ok (.success j a) s') (hrest : SucceedInTurn ps j s' as r t) :
      SucceedInTurn (p :: ps) i s (a :: as) r t

/-- From `i` in the state `s` the parser `q` of a list is reached on `r` in the state `t`: those
before it succeed in turn. -/
inductive SucceedUpTo :
    List (Parser ι α) → ι → RunState → Parser ι α → ι → RunState → Prop where
  | here {q : Parser ι α} {ps : List (Parser ι α)} {i : ι} {s : RunState} :
      SucceedUpTo (q :: ps) i s q i s
  | later {p q : Parser ι α} {ps : List (Parser ι α)} {i j r : ι} {s s' t : RunState} {a : α}
      (h : p i s = .ok (.success j a) s') (hrest : SucceedUpTo ps j s' q r t) :
      SucceedUpTo (p :: ps) i s q r t

variable {i j r : ι} {s s' t : RunState} {p q : Parser ι α} {a : α} {as : List α} {stop : Stop ι}

theorem sequence_cons_of_success (h : p i s = .ok (.success j a) t) (ps : List (Parser ι α)) :
    sequence (p :: ps) i s = map (List.cons a) (sequence ps) j t := by
  rw [sequence_cons, map2_eq_flatMap, flatMap_apply, h]

theorem sequence_cons_of_stop (h : p i s = stop.result t) (ps : List (Parser ι α)) :
    sequence (p :: ps) i s = stop.result t := by
  rw [sequence_cons, map2_eq_flatMap, flatMap_apply, h]
  cases stop <;> rfl

theorem map_of_stop (f : α → β) (h : p i s = stop.result t) : map f p i s = stop.result t := by
  rw [map_apply, h]
  cases stop <;> rfl

theorem SucceedInTurn.sequence_eq (h : SucceedInTurn ps i s as r t) :
    sequence ps i s = .ok (.success r as) t := by
  induction h with
  | nil => rfl
  | cons h _ ih =>
    rw [sequence_cons_of_success h, map_apply, ih]
    rfl

theorem SucceedUpTo.sequence_eq (h : SucceedUpTo ps i s q r s') (hq : q r s' = stop.result t) :
    sequence ps i s = stop.result t := by
  induction h with
  | here => exact sequence_cons_of_stop hq _
  | later h _ ih => rw [sequence_cons_of_success h, map_of_stop _ (ih hq)]

/-- Either all parsers of a list succeed in turn, or one is reached that stops. -/
theorem succeedInTurn_or_upTo (ps : List (Parser ι α)) (i : ι) (s : RunState) :
    (∃ as r t, SucceedInTurn ps i s as r t) ∨
      ∃ q r s' stop t, SucceedUpTo ps i s q r s' ∧ q r s' = Stop.result t stop := by
  induction ps generalizing i s with
  | nil => exact .inl ⟨[], i, s, .nil⟩
  | cons p ps ih =>
    rcases success_or_stop (p i s) with ⟨j, a, s', h⟩ | ⟨stop, t, h⟩
    · rcases ih j s' with ⟨as, r, t, hps⟩ | ⟨q, r, s'', stop, t, hq, hstop⟩
      · exact .inl ⟨a :: as, r, t, .cons h hps⟩
      · exact .inr ⟨q, r, s'', stop, t, .later h hq, hstop⟩
    · exact .inr ⟨p, i, s, stop, t, .here, h⟩

theorem sequence_eq_success_iff :
    sequence ps i s = .ok (.success r as) t ↔ SucceedInTurn ps i s as r t := by
  refine ⟨fun h => ?_, SucceedInTurn.sequence_eq⟩
  rcases succeedInTurn_or_upTo ps i s with ⟨as', r', t', hps⟩ | ⟨q, r', s', stop, t', hq, hstop⟩
  · rw [hps.sequence_eq] at h
    cases h
    exact hps
  · rw [hq.sequence_eq hstop] at h
    exact absurd h Stop.result_ne_success

theorem sequence_eq_stop_iff :
    sequence ps i s = stop.result t ↔
      ∃ q r s', SucceedUpTo ps i s q r s' ∧ q r s' = stop.result t := by
  refine ⟨fun h => ?_, fun ⟨q, r, s', hq, hstop⟩ => hq.sequence_eq hstop⟩
  rcases succeedInTurn_or_upTo ps i s with ⟨as', r', t', hps⟩ | ⟨q, r', s', stop', t', hq, hstop⟩
  · rw [hps.sequence_eq] at h
    exact absurd h.symm Stop.result_ne_success
  · rw [hq.sequence_eq hstop] at h
    obtain ⟨rfl, rfl⟩ := Stop.result_inj.mp h
    exact ⟨q, r', s', hq, hstop⟩

/-! ## Two parsers -/

/-- The two values of a list that holds a first and a second one. -/
def pair? : List (α ⊕ β) → Option (α × β)
  | [.inl a, .inr b] => some (a, b)
  | _ => none

/-- A chain of two parsers combines their values, whatever types these have. -/
theorem chain_two (f : List (α ⊕ β) → γ) (p : Parser ι α) (q : Parser ι β) :
    chain f [map .inl p, map .inr q] = map2 (fun a b => f [.inl a, .inr b]) p q := by
  simp only [chain, sequence_cons, sequence_nil, map2_eq_flatMap, map_flatMap, flatMap_map,
    map_succeed]
  simp only [map_eq_flatMap]

/-- Two values that are combined are those of a sequence. -/
theorem map_some_map2 (f : α → β → γ) (p : Parser ι α) (q : Parser ι β) :
    map some (map2 f p q)
      = map (fun values => (pair? values).map fun ab => f ab.1 ab.2)
          (sequence [map .inl p, map .inr q]) := by
  rw [map_map2]
  exact (chain_two (fun values => (pair? values).map fun ab => f ab.1 ab.2) p q).symm

theorem map2_pair (p : Parser ι α) (q : Parser ι β) : map2 Prod.mk p q = both p q := by
  rw [map2_eq_flatMap, both]

/-! ## Both together -/

/-- **A sequence is parsers paired one after the other.**  The loop over a list of parsers is the
pairs nested to the right, flattened to a list.  It succeeds exactly when the parsers succeed in
turn, with their values in order and with what the last of them left; and it stops exactly when
one of them is reached that stops, with the same failure or the same halt and in the same state,
so none of those after it has been run.

The parsers of two lists, one list behind the other, are run as a sequence of the first and a
sequence of the second whose values are joined.  A chain changes the list of the nested values.
Of two parsers, whose values may be of different types, `both`, `map2`, `preceded` and
`terminated` have the values that are found at the two places of a sequence: as a pair, combined,
the second one and the first one. -/
theorem sequence_answers (ps : List (Parser ι α)) :
    sequence ps = map Pairs.toList (pairs ps) ∧
    (∀ i s,
      (∀ as r t, sequence ps i s = .ok (.success r as) t ↔ SucceedInTurn ps i s as r t) ∧
      ∀ (stop : Stop ι) t, sequence ps i s = stop.result t ↔
        ∃ q r s', SucceedUpTo ps i s q r s' ∧ q r s' = stop.result t) ∧
    (∀ qs, sequence (ps ++ qs) = map2 (· ++ ·) (sequence ps) (sequence qs)) ∧
    (∀ {β : Type} (f : List α → β), chain f ps = map (fun v => f v.toList) (pairs ps)) ∧
    ∀ {β γ : Type} (p : Parser ι α) (q : Parser ι β),
      map some (both p q) = map pair? (sequence [map .inl p, map .inr q]) ∧
      (∀ f : α → β → γ, map some (map2 f p q)
        = map (fun values => (pair? values).map fun ab => f ab.1 ab.2)
            (sequence [map .inl p, map .inr q])) ∧
      map some (preceded p q)
        = map (fun values => (pair? values).map Prod.snd) (sequence [map .inl p, map .inr q]) ∧
      map some (terminated p q)
        = map (fun values => (pair? values).map Prod.fst)
            (sequence [map .inl p, map .inr q]) := by
  refine ⟨sequence_eq_map_pairs ps,
    fun i s => ⟨fun as r t => sequence_eq_success_iff, fun stop t => sequence_eq_stop_iff⟩,
    sequence_append ps, fun f => ?_, fun p q => ⟨?_, fun f => map_some_map2 f p q, ?_, ?_⟩⟩
  · rw [chain, sequence_eq_map_pairs, map_map]
  · rw [← map2_pair, map_some_map2]
    simp only [Option.map_id']
  · exact map_some_map2 (fun _ b => b) p q
  · exact map_some_map2 (fun a _ => a) p q

end Parser
end Descent
