import Descent.Proofs.Congruence
import Descent.Proofs.Json.Documents

/-!
# Limits that are not reached

A guard has a part in what is read only by refusing an entry.  So a run that refuses none
goes the same way when the limits of the guards are raised.  The condition cannot be
dropped: a refusal is a failure like any other, which a choice or a repetition turns into a
success that reads something else.

Refusals are recorded, so a run refuses nothing if none of the events that it adds to the
record is a refusal (`Run.Unrefused`).  Two runs are compared, from states with the same
entries whose guards have higher limits on one side (`RunState.LimitsRaised`).  Either both
end in the same way and add the same events, or the first has refused an entry
(`Run.SameUnlessRefused`).  Once there is a refusal nothing is known of the second run any
more, and of the first only that it keeps its record; for this the relation between the
computations also says that a run does nothing but add to the record.

That relation is a congruence (`Run.raised_congruence`), so it holds of every grammar, and
of reading a document.
-/

namespace Descent

variable {ι α β : Type}

/-! ## Records of refusals -/

namespace Run

/-- The events that a run which began in `s` has added to the record. -/
def recordedSince (s : RunState) (x : EStateM.Result Halt RunState α) : List Event :=
  (stateAfter x).log.toList.drop s.log.size

/-- A run which began in `s` has refused no entry into a guard. -/
def Unrefused (s : RunState) (x : EStateM.Result Halt RunState α) : Prop :=
  ∀ limit, Event.limitReached limit ∉ recordedSince s x

theorem recordedSince_of_recordAll {s : RunState} {x : EStateM.Result Halt RunState α}
    {es : List Event} (h : stateAfter x = s.recordAll es) : recordedSince s x = es := by
  rw [recordedSince, h, RunState.recordAll, Array.toList_append, ← Array.length_toList,
    List.drop_left]

end Run

/-! ## States whose limits are raised -/

/-- The guards of the second state have the entries of those of the first, and limits that
are as high or higher. -/
structure RunState.LimitsRaised (s t : RunState) : Prop where
  size_eq : t.guards.size = s.guards.size
  depth_eq : ∀ g, (t.guardAt g).currentDepth = (s.guardAt g).currentDepth
  limit_le : ∀ g, (s.guardAt g).maxDepth ≤ (t.guardAt g).maxDepth

namespace RunState.LimitsRaised

variable {s t : RunState}

theorem recordAll (h : s.LimitsRaised t) (es : List Event) :
    (s.recordAll es).LimitsRaised (t.recordAll es) :=
  ⟨h.size_eq, h.depth_eq, h.limit_le⟩

/-- A guard that admits an entry admits it under the higher limit, and inside it the limits
are still raised. -/
theorem enter (h : s.LimitsRaised t) {g : Nat} {inside : DepthGuard}
    (he : (s.guardAt g).enter = .ok inside) :
    ∃ inside', (t.guardAt g).enter = .ok inside' ∧
      (s.setGuard g inside).LimitsRaised (t.setGuard g inside') := by
  obtain ⟨hlt, rfl⟩ := DepthGuard.of_enter_eq_ok he
  have hdepth := h.depth_eq g
  have hlimit := h.limit_le g
  have hs : g < s.guards.size := lt_size_of_enter he
  have ht : g < t.guards.size := h.size_eq ▸ hs
  have hle : (t.guardAt g).currentDepth < (t.guardAt g).maxDepth := by omega
  refine ⟨_, DepthGuard.enter_of_lt hle, ⟨?_, fun k => ?_, fun k => ?_⟩⟩
  · rw [guards_setGuard, guards_setGuard, Array.size_setIfInBounds,
      Array.size_setIfInBounds, h.size_eq]
  · by_cases hk : g = k
    · subst hk
      rw [guardAt_setGuard_self hs, guardAt_setGuard_self ht]
      simp only [hdepth]
    · rw [guardAt_setGuard_of_ne s hk, guardAt_setGuard_of_ne t hk, h.depth_eq]
  · by_cases hk : g = k
    · subst hk
      rw [guardAt_setGuard_self hs, guardAt_setGuard_self ht]
      exact hlimit
    · rw [guardAt_setGuard_of_ne s hk, guardAt_setGuard_of_ne t hk]
      exact h.limit_le k

end RunState.LimitsRaised

/-! ## The relation between the runs -/

namespace Run

/-- The run that began in `s` and the one that began in `t` end in the same way and add the
same events, or the first has refused an entry. -/
inductive SameUnlessRefused (s t : RunState) :
    EStateM.Result Halt RunState α → EStateM.Result Halt RunState α → Prop where
  | ok (a : α) (es : List Event) :
      SameUnlessRefused s t (.ok a (s.recordAll es)) (.ok a (t.recordAll es))
  | halt (h : Halt) (es : List Event) :
      SameUnlessRefused s t (.error h (s.recordAll es)) (.error h (t.recordAll es))
  | refused {x y : EStateM.Result Halt RunState α} (es : List Event)
      (hx : stateAfter x = s.recordAll es) {limit : Int}
      (hlimit : Event.limitReached limit ∈ es) : SameUnlessRefused s t x y

/-- The first computation only adds to the record, and the second does the same from a state
with higher limits, unless the first refuses an entry. -/
structure Raised (α : Type) (m n : Run α) : Prop where
  records : ∀ s, ∃ es, stateAfter (m s) = s.recordAll es
  same : ∀ {s t}, s.LimitsRaised t → SameUnlessRefused s t (m s) (n t)

/-- Inside a guard, the guard is the one with an entry more, whatever has been recorded. -/
theorem guardAt_inside {s : RunState} {g : Nat} {inside : DepthGuard}
    (he : (s.guardAt g).enter = .ok inside) (es : List Event) :
    ((s.setGuard g inside).recordAll es).guardAt g = inside :=
  RunState.guardAt_setGuard_self (s := s.recordAll es) (RunState.lt_size_of_enter he) inside

/-- Leaving a guard takes back the entry, and what was recorded inside stays. -/
theorem leave_recordAll {s : RunState} {g : Nat} {inside : DepthGuard}
    (he : (s.guardAt g).enter = .ok inside) (es : List Event) :
    leave g ((s.setGuard g inside).recordAll es) = s.recordAll es := by
  rw [leave, guardAt_inside he, DepthGuard.leave_of_enter he]
  exact ((s.recordAll es).setGuard_setGuard g inside _).trans
    ((s.recordAll es).setGuard_guardAt g)

/-- A run inside a guard adds to the record what its body adds. -/
theorem exists_stateAfter_within {s : RunState} {g : Nat} {inside : DepthGuard}
    (he : (s.guardAt g).enter = .ok inside) (refused : α) {m : Run α} {es : List Event}
    (hm : stateAfter (m (s.setGuard g inside)) = (s.setGuard g inside).recordAll es) :
    ∃ es', stateAfter (within g refused m s) = s.recordAll es' ∧ es ⊆ es' := by
  rw [within_ample, he]
  simp only
  generalize m (s.setGuard g inside) = x at hm ⊢
  cases x with
  | ok a s' =>
    obtain rfl : s' = _ := hm
    exact ⟨es, leave_recordAll he es, List.Subset.refl es⟩
  | error h s' =>
    obtain rfl : s' = _ := hm
    cases h with
    | unfinished => exact ⟨es, leave_recordAll he es, List.Subset.refl es⟩
    | fault f =>
      cases f with
      | stackExhausted reason =>
        refine ⟨es ++ [.stackExhausted inside.currentDepth], ?_, List.subset_append_left es _⟩
        show leave g (RunState.record _ (.stackExhausted
          (((s.setGuard g inside).recordAll es).guardAt g).currentDepth)) = _
        rw [guardAt_inside he, ← RunState.recordAll_singleton, RunState.recordAll_recordAll,
          leave_recordAll he]
      | _ => exact ⟨es, leave_recordAll he es, List.Subset.refl es⟩

theorem Raised.bind {m n : Run α} {f f' : α → Run β} (h : Raised α m n)
    (hf : ∀ a, Raised β (f a) (f' a)) : Raised β (m >>= f) (n >>= f') where
  records s := by
    obtain ⟨es, hes⟩ := h.records s
    simp only [Bind.bind, EStateM.bind]
    generalize m s = x at hes ⊢
    cases x with
    | ok a s' =>
      obtain rfl : s' = _ := hes
      obtain ⟨es', hes'⟩ := (hf a).records (s.recordAll es)
      exact ⟨es ++ es', hes'.trans (s.recordAll_recordAll es es')⟩
    | error e s' => exact ⟨es, hes⟩
  same := by
    intro s t hst
    have hsame := h.same hst
    simp only [Bind.bind, EStateM.bind]
    generalize m s = x at hsame ⊢
    generalize n t = y at hsame ⊢
    cases hsame with
    | ok a es =>
      have hsame := (hf a).same (hst.recordAll es)
      simp only
      generalize f a (s.recordAll es) = x at hsame ⊢
      generalize f' a (t.recordAll es) = y at hsame ⊢
      cases hsame with
      | ok b es' =>
        rw [RunState.recordAll_recordAll, RunState.recordAll_recordAll]
        exact .ok b (es ++ es')
      | halt e es' =>
        rw [RunState.recordAll_recordAll, RunState.recordAll_recordAll]
        exact .halt e (es ++ es')
      | refused es' hx hlimit =>
        exact .refused _ (hx.trans (s.recordAll_recordAll es es'))
          (List.mem_append_right es hlimit)
    | halt e es => exact .halt e es
    | refused es hx hlimit =>
      -- whatever the second run does, the refusal stays in the record of the first
      cases x with
      | ok a s' =>
        obtain rfl : s' = _ := hx
        obtain ⟨es', hes'⟩ := (hf a).records (s.recordAll es)
        exact .refused _ (hes'.trans (s.recordAll_recordAll es es'))
          (List.mem_append_left es' hlimit)
      | error e s' => exact .refused es hx hlimit

theorem Raised.within (g : Nat) (refused : α) {m n : Run α} (h : Raised α m n) :
    Raised α (within g refused m) (within g refused n) where
  records s := by
    cases he : (s.guardAt g).enter with
    | error e =>
      refine ⟨[.limitReached e.maxDepth], ?_⟩
      rw [Run.within_ample, he, RunState.recordAll_singleton]
      rfl
    | ok inside =>
      obtain ⟨es, hes⟩ := h.records (s.setGuard g inside)
      obtain ⟨es', hes', _⟩ := exists_stateAfter_within he refused hes
      exact ⟨es', hes'⟩
  same := by
    intro s t hst
    cases he : (s.guardAt g).enter with
    | error e =>
      refine .refused [.limitReached e.maxDepth] ?_ (List.mem_singleton_self _)
      rw [Run.within_ample, he, RunState.recordAll_singleton]
      rfl
    | ok inside =>
      obtain ⟨inside', he', hin⟩ := hst.enter he
      have hsame := h.same hin
      generalize hx : m (s.setGuard g inside) = x at hsame
      generalize hy : n (t.setGuard g inside') = y at hsame
      cases hsame with
      | ok a es =>
        simp only [Run.within_ample, he, he', hx, hy]
        rw [leave_recordAll he, leave_recordAll he']
        exact .ok a es
      | halt e es =>
        simp only [Run.within_ample, he, he', hx, hy]
        cases e with
        | unfinished =>
          simp only [leave_recordAll he, leave_recordAll he']
          exact .halt .unfinished es
        | fault f =>
          cases f with
          | stackExhausted reason =>
            -- the depth that is recorded is that of the guards, which have the same entries
            simp only [← RunState.recordAll_singleton, RunState.recordAll_recordAll]
            rw [(hin.recordAll es).depth_eq g, leave_recordAll he, leave_recordAll he']
            exact .ok refused _
          | _ =>
            simp only [leave_recordAll he, leave_recordAll he']
            exact .halt _ es
      | refused es hx' hlimit =>
        rw [← hx] at hx'
        obtain ⟨es', hes', hsub⟩ := exists_stateAfter_within he refused hx'
        exact .refused es' hes' (hsub hlimit)

theorem raised_congruence : Congruence Raised where
  recorded step := by
    obtain ⟨es, r⟩ := step
    cases r with
    | ok a => exact ⟨fun s => ⟨es, rfl⟩, fun _ => .ok a es⟩
    | error f => exact ⟨fun s => ⟨es, rfl⟩, fun _ => .halt (.fault f) es⟩
  unfinished {α} := by
    refine ⟨fun s => ⟨[], s.recordAll_nil.symm⟩, fun {s t} _ => ?_⟩
    have h := SameUnlessRefused.halt (s := s) (t := t) (α := α) .unfinished []
    rwa [RunState.recordAll_nil, RunState.recordAll_nil] at h
  bind h hf := h.bind hf
  within g refused _ _ h := h.within g refused

/-- If the first run has refused nothing, the second has not either, and the answers are the
same. -/
theorem Raised.of_unrefused {m n : Run α} (h : Raised α m n) {s t : RunState}
    (hst : s.LimitsRaised t) (hs : Unrefused s (m s)) :
    Unrefused t (n t) ∧ answer (n t) = answer (m s) := by
  have hsame := h.same hst
  generalize m s = x at hs hsame
  generalize n t = y at hsame
  unfold Unrefused at hs ⊢
  cases hsame with
  | ok a es =>
    have hx : recordedSince s (.ok a (s.recordAll es)) = es := recordedSince_of_recordAll rfl
    have hy : recordedSince t (.ok a (t.recordAll es)) = es := recordedSince_of_recordAll rfl
    rw [hx] at hs
    rw [hy]
    exact ⟨hs, rfl⟩
  | halt e es =>
    have hx : recordedSince s (.error e (s.recordAll es) : EStateM.Result Halt RunState α) = es :=
      recordedSince_of_recordAll rfl
    have hy : recordedSince t (.error e (t.recordAll es) : EStateM.Result Halt RunState α) = es :=
      recordedSince_of_recordAll rfl
    rw [hx] at hs
    rw [hy]
    exact ⟨hs, rfl⟩
  | refused es hx hlimit =>
    rw [recordedSince_of_recordAll hx] at hs
    exact absurd hlimit (hs _)

end Run

/-! ## Documents -/

namespace Json
namespace DocumentParser

variable {p q : DocumentParser} {source : Text}

/-- Reading a document respects a congruence, for two parsers with the same size limit. -/
theorem parse_congr {T : ∀ α : Type, Run α → Run α → Prop} (hT : Run.Congruence T)
    (hsize : p.maxSourceSize = q.maxSourceSize)
    (h : T _ (p.readDocument source) (q.readDocument source)) :
    T _ (p.parse source) (q.parse source) := by
  have hlarge : p.isTooLarge source = q.isTooLarge source := by
    unfold isTooLarge
    rw [hsize]
  unfold parse
  rw [hlarge, hsize]
  split
  · exact hT.pure _
  · refine hT.bind h fun r => ?_
    cases r with
    | error e => exact hT.pure _
    | ok v => exact hT.bind (hT.record _) fun _ => hT.pure _

/-- A parser with a higher nesting limit is granted more calls, which changes nothing under
the guard of the lower limit. -/
theorem parse_eq_of_le (hsize : p.maxSourceSize = q.maxSourceSize)
    (hdepth : p.maxNestingDepth ≤ q.maxNestingDepth) {s : RunState}
    (hroom : room (Parser.guardOf s.guards 0) = p.maxNestingDepth.toNat) :
    q.parse source s = p.parse source s := by
  have hrefines : Run.Refines _ (p.parse source) (q.parse source) :=
    parse_congr Run.refines_congruence hsize
      (Parser.parse_congr Run.refines_congruence Text.located
        ((rules 0).parse_refines _ (by omega)) _)
  obtain ⟨r, s', hr⟩ : ∃ r s', p.parse source s = .ok r s' := by
    cases hlarge : p.isTooLarge source with
    | true => exact ⟨_, _, p.parse_of_isTooLarge hlarge⟩
    | false =>
      rcases p.readDocument_ok_or_error hroom source with ⟨v, s', _, hread, _⟩ | ⟨e, s', hread, _⟩
      · exact ⟨_, _, p.parse_of_readDocument_ok hlarge hread⟩
      · exact ⟨_, _, p.parse_of_readDocument_error hlarge hread⟩
  rw [hr]
  exact hrefines.eq_of_ok hr

/-- The guards of two document parsers, by their nesting limits. -/
theorem limitsRaised_of_start (recursionLimit : Int)
    (hdepth : p.maxNestingDepth ≤ q.maxNestingDepth) {s t : RunState}
    (hs : s.guards = (p.start recursionLimit).guards)
    (ht : t.guards = (q.start recursionLimit).guards) : s.LimitsRaised t := by
  have hguards : ∀ (p : DocumentParser) (s : RunState),
      s.guards = (p.start recursionLimit).guards →
      s.guards = #[.ofLimit recursionLimit (Depth.clamp recursionLimit p.maxNestingDepth
        Limits.reserveFrames Limits.framesPerLevel)] := fun p s hs => hs
  have hs := hguards p s hs
  have ht := hguards q t ht
  refine ⟨by rw [hs, ht]; rfl, fun g => ?_, fun g => ?_⟩
  · rw [Parser.guardAt_eq_guardOf hs, Parser.guardAt_eq_guardOf ht]
    cases g <;> rfl
  · rw [Parser.guardAt_eq_guardOf hs, Parser.guardAt_eq_guardOf ht]
    cases g with
    | zero =>
      show Depth.clamp _ (Depth.clamp _ _ _ _) _ _ ≤ Depth.clamp _ (Depth.clamp _ _ _ _) _ _
      simp only [Depth.clamp_eq_min]
      omega
    | succ g => exact Int.le_refl _

/-- A document parser with a higher nesting limit answers as one that refuses no entry. -/
theorem parse_of_unrefused (recursionLimit : Int) (hsize : p.maxSourceSize = q.maxSourceSize)
    (hdepth : p.maxNestingDepth ≤ q.maxNestingDepth)
    (hroom : room (Parser.guardOf (p.start recursionLimit).guards 0)
      = p.maxNestingDepth.toNat) {s t : RunState}
    (hs : s.guards = (p.start recursionLimit).guards)
    (ht : t.guards = (q.start recursionLimit).guards)
    (hrun : Run.Unrefused s (p.parse source s)) :
    Run.Unrefused t (q.parse source t) ∧
      Run.answer (q.parse source t) = Run.answer (p.parse source s) := by
  have hcalls : q.parse source s = p.parse source s :=
    parse_eq_of_le hsize hdepth (by rw [hs, hroom])
  have hraised : Run.Raised _ (q.parse source) (q.parse source) :=
    parse_congr Run.raised_congruence rfl
      (Parser.parse_congr Run.raised_congruence Text.located
        ((rules 0).parse_congr Run.raised_congruence _ _) _)
  rw [← hcalls] at hrun ⊢
  exact hraised.of_unrefused (limitsRaised_of_start recursionLimit hdepth hs ht) hrun

end DocumentParser
end Json

/-! ## Grammars -/

variable {Λ : Type → Type} {ρ : Type} {τ : ρ → Type} [DecidableEq ι] [Extent ι]
  [Terminal Λ ι]

open Json in
/-- **Limits that are not reached have no part in what is read.**  If a run of a grammar
refuses no entry, then the run on the same input from a state with the same entries and with
limits that are as high or higher refuses none either, and has the same answer.  In
particular a document parser with a higher nesting limit, and the same size limit, answers
as the one with the lower limit does on every text on which that one refuses no entry. -/
theorem Rules.limits_unreached (rules : Rules Λ τ) (e : Expr Λ τ α) (calls : Nat) :
    (∀ (i : ι) (s t : RunState), s.LimitsRaised t →
      Run.Unrefused s (rules.parse e calls i s) →
      Run.Unrefused t (rules.parse e calls i t) ∧
        Run.answer (rules.parse e calls i t) = Run.answer (rules.parse e calls i s)) ∧
    ∀ (maxSourceSize d d' : Option Int) (recursionLimit : Int) (source : Text)
        (s t : RunState),
      let p := DocumentParser.ofLimits maxSourceSize d recursionLimit
      let q := DocumentParser.ofLimits maxSourceSize d' recursionLimit
      p.maxNestingDepth ≤ q.maxNestingDepth →
      s.guards = (p.start recursionLimit).guards →
      t.guards = (q.start recursionLimit).guards →
      Run.Unrefused s (p.parse source s) →
      Run.Unrefused t (q.parse source t) ∧
        Run.answer (q.parse source t) = Run.answer (p.parse source s) := by
  refine ⟨fun i s t hst hs => ?_, ?_⟩
  · exact (rules.parse_congr Run.raised_congruence e calls i).of_unrefused hst hs
  · intro maxSourceSize d d' recursionLimit source s t p q hdepth hs ht hrun
    have hsize : p.maxSourceSize = q.maxSourceSize := rfl
    exact DocumentParser.parse_of_unrefused recursionLimit hsize hdepth
      (DocumentParser.room_start maxSourceSize d recursionLimit) hs ht hrun

/-- How deep brackets nest; what stands between two of them may be missing. -/
def bracketDepth : Rules Primitive (fun _ : Unit => Nat) := fun _ =>
  .guarded 0 (.firstOf
    (.map (fun below => below + 1)
      (.terminated (.preceded (.literal "(") (.ref ())) (.literal ")")))
    [.succeed 0])

/-- One bracket is read in the same way under a limit of two and under one of five, and so is
a document with an array of one number.  Of two brackets, the limit of two refuses what
stands inside the inner one. -/
theorem bracketDepth_limits_unreached :
    Run.answer (bracketDepth.parse (.ref ()) 3 ({ source := #['(', ')'] } : Cursor)
        { guards := #[{ maxDepth := 5 }] })
      = .ok (.success { source := #['(', ')'], pos := 2 } 1) ∧
    Run.answer ((Json.DocumentParser.ofLimits none (some 5)).parse #['[', '7', ']']
        (Json.DocumentParser.ofLimits none (some 5)).start)
      = Run.answer ((Json.DocumentParser.ofLimits none (some 2)).parse #['[', '7', ']']
        (Json.DocumentParser.ofLimits none (some 2)).start) ∧
    ¬ Run.Unrefused { guards := #[{ maxDepth := 2 }] }
      (bracketDepth.parse (.ref ()) 3 ({ source := #['(', '(', ')', ')'] } : Cursor)
        { guards := #[{ maxDepth := 2 }] }) := by
  have hst : RunState.LimitsRaised { guards := #[{ maxDepth := 2 }] }
      { guards := #[{ maxDepth := 5 }] } := by
    refine ⟨rfl, fun g => ?_, fun g => ?_⟩
    · cases g <;> rfl
    · cases g with
      | zero => exact (by decide : (2 : Int) ≤ 5)
      | succ g => exact Int.le_refl _
  have hbracket : Run.Unrefused { guards := #[{ maxDepth := 2 }] }
      (bracketDepth.parse (.ref ()) 3 ({ source := #['(', ')'] } : Cursor)
        { guards := #[{ maxDepth := 2 }] }) :=
    fun limit hlimit => absurd hlimit List.not_mem_nil
  have hdocument : Run.Unrefused (Json.DocumentParser.ofLimits none (some 2)).start
      ((Json.DocumentParser.ofLimits none (some 2)).parse #['[', '7', ']']
        (Json.DocumentParser.ofLimits none (some 2)).start) := by
    have hevents : Run.recordedSince (Json.DocumentParser.ofLimits none (some 2)).start
        ((Json.DocumentParser.ofLimits none (some 2)).parse #['[', '7', ']']
          (Json.DocumentParser.ofLimits none (some 2)).start) = [.documentParsed 3] := rfl
    intro limit hlimit
    rw [hevents] at hlimit
    exact absurd (List.mem_singleton.mp hlimit) (by simp)
  obtain ⟨hgrammar, hparser⟩ := bracketDepth.limits_unreached (ι := Cursor) (.ref ()) 3
  refine ⟨(hgrammar _ _ _ hst hbracket).2.trans rfl, ?_, fun h => h 2 (List.mem_singleton_self _)⟩
  exact (hparser none (some 2) (some 5) Limits.recursionLimit #['[', '7', ']'] _ _ (by decide)
    rfl rfl hdocument).2

end Descent
