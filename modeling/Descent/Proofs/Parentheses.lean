import Descent.Proofs.Farthest
import Descent.Proofs.Json.Prefixes
import Descent.Proofs.Json.Rejection

/-!
# Parentheses under a guard

A grammar for nested parentheses reads an opening one, whatever is nested in it, and a closing
one, and says how deep they nest; where this does not read, it reads nothing and says zero.
The whole of it is guarded, so with `d + 1` entries left it reads up to `d` pairs
(`reads_balanced`).

With more than that, the guard refuses what would be nested in the pair number `d + 1`.  This
alone is no failure of the whole, for the choice around that pair turns it into an empty
reading.  But then the closing parenthesis of the pair is missing, since another opening one
stands there, and the next pair outwards is in the same position: so every pair falls back to
an empty reading, up to the first one (`reads_tooDeep`).

An empty reading is always left, so the grammar neither fails nor halts, on whatever cursor
(`exists_yields_nested`).
-/

namespace Descent

/-! ## Parsers that do not halt -/

namespace Parser

variable {ι α β : Type} {p : Parser ι α} {G : Array DepthGuard} {i : ι}

theorem exists_yields_map (f : α → β) (h : ∃ o, p.Yields G i o) :
    ∃ o, (map f p).Yields G i o := by
  obtain ⟨o, h⟩ := h
  cases o with
  | success r a => exact ⟨_, Reads.map f h⟩
  | failure j l => exact ⟨_, Fails.map f h⟩

theorem exists_yields_flatMap {f : α → Parser ι β} (h : ∃ o, p.Yields G i o)
    (hf : ∀ a r, ∃ o, (f a).Yields G r o) : ∃ o, (flatMap p f).Yields G i o := by
  obtain ⟨o, h⟩ := h
  cases o with
  | success r a =>
    obtain ⟨o, ho⟩ := hf a r
    exact ⟨o, Reads.flatMap h ho⟩
  | failure j l => exact ⟨_, Fails.flatMap h⟩

end Parser

namespace Parentheses

open Descent.Parser Descent.Json

/-! ## The grammar -/

/-- How deep a pair of parentheses nests, by what is nested in it. -/
def deeper : List (Text ⊕ Nat) → Nat
  | [_, .inr depth, _] => depth + 1
  | _ => 0

/-- An opening parenthesis, what is nested in it, and a closing one. -/
def pair : Expr Primitive (fun _ : Unit => Nat) Nat :=
  .map deeper (.sequenceOf
    [.map .inl (.literal "("), .map .inr (.ref ()), .map .inl (.literal ")")])

/-- Nested parentheses, or nothing, guarded by the guard at place `g`. -/
def nested (g : Nat) : Expr Primitive (fun _ : Unit => Nat) Nat :=
  .guarded g (.firstOf pair [.succeed 0])

/-- The one rule of the grammar. -/
def rules (g : Nat) : Rules Primitive (fun _ : Unit => Nat) := fun _ => nested g

/-- So many opening parentheses, and as many closing ones. -/
def text (n : Nat) : Text := (List.replicate n '(' ++ List.replicate n ')').toArray

/-! ## A pair, and a pair or nothing -/

section Forms

variable {ι : Type} [DecidableEq ι] [Extent ι] [Terminal Primitive ι]
  {call : Unit → Parser ι Nat} {G : Array DepthGuard} {i j m r : ι} {a b : Text} {depth : Nat}

/-- One parenthesis, as the grammar reads it with `call` for what is nested. -/
abbrev paren (call : Unit → Parser ι Nat) (s : String) : Parser ι Text :=
  (Expr.literal s : Expr Primitive (fun _ : Unit => Nat) Text).eval call

theorem eval_pair : pair.eval call = Parser.map deeper
    (flatMap (Parser.map .inl (paren call "(")) fun opening =>
      flatMap (Parser.map .inr (call ())) fun inside =>
        flatMap (Parser.map .inl (paren call ")")) fun closing =>
          succeed [opening, inside, closing]) := rfl

theorem reads_pair (hopening : (paren call "(").Reads G i j a)
    (hinside : (call ()).Reads G j m depth) (hclosing : (paren call ")").Reads G m r b) :
    (pair.eval call).Reads G i r (depth + 1) := by
  rw [eval_pair]
  refine Reads.map (a := [.inl a, .inr depth, .inl b]) deeper ?_
  refine (hopening.map Sum.inl).flatMap ?_
  refine (hinside.map Sum.inr).flatMap ?_
  exact (hclosing.map Sum.inl).flatMap (reads_succeed _)

theorem refuses_pair (hopening : (paren call "(").Refuses G i) :
    (pair.eval call).Refuses G i := by
  rw [eval_pair]
  exact (hopening.map Sum.inl).flatMap.map deeper

theorem refuses_pair_of_inside (hopening : (paren call "(").Reads G i j a)
    (hinside : (call ()).Refuses G j) : (pair.eval call).Refuses G i := by
  rw [eval_pair]
  refine Refuses.map deeper (Refuses.flatMap_next (hopening.map Sum.inl) ?_)
  exact (hinside.map Sum.inr).flatMap

theorem refuses_pair_of_closing (hopening : (paren call "(").Reads G i j a)
    (hinside : (call ()).Reads G j m depth) (hclosing : (paren call ")").Refuses G m) :
    (pair.eval call).Refuses G i := by
  rw [eval_pair]
  refine Refuses.map deeper (Refuses.flatMap_next (hopening.map Sum.inl) ?_)
  refine Refuses.flatMap_next (hinside.map Sum.inr) ?_
  exact (hclosing.map Sum.inl).flatMap

/-- A pair that is read is the reading of the whole. -/
theorem reads_nested {g : Nat} {inside : DepthGuard} (he : (guardOf G g).enter = .ok inside)
    (h : (pair.eval call).Reads (G.setIfInBounds g inside) i r depth) :
    ((nested g).eval call).Reads G i r depth := by
  refine Yields.guarded he ?_
  rw [Expr.eval_firstOf]
  exact h.oneOf

/-- Where a pair is refused the whole reads nothing. -/
theorem reads_nested_of_refuses {g : Nat} {inside : DepthGuard}
    (he : (guardOf G g).enter = .ok inside)
    (h : (pair.eval call).Refuses (G.setIfInBounds g inside) i) :
    ((nested g).eval call).Reads G i i 0 := by
  refine Yields.guarded he ?_
  rw [Expr.eval_firstOf]
  exact h.reads_oneOf fun j l => (reads_succeed 0).oneOfFrom j l

theorem exists_yields_pair (hparen : ∀ s k, ∃ o, (paren call s).Yields G k o)
    (hinside : ∀ k, ∃ o, (call ()).Yields G k o) (i : ι) :
    ∃ o, (pair.eval call).Yields G i o := by
  rw [eval_pair]
  refine exists_yields_map _ (exists_yields_flatMap (exists_yields_map _ (hparen _ _))
    fun _ j => exists_yields_flatMap (exists_yields_map _ (hinside j))
      fun _ m => exists_yields_flatMap (exists_yields_map _ (hparen _ _))
        fun _ r => ⟨_, reads_succeed _⟩)

end Forms

/-! ## The guard -/

section Guard

variable {G : Array DepthGuard} {g d n : Nat}

/-- With room for one entry more, and for one call, the guard is entered and the call made. -/
theorem exists_inside (hn : d < n) (hroom : room (guardOf G g) = d + 1) :
    ∃ k inside, n = k + 1 ∧ d ≤ k ∧ (guardOf G g).enter = .ok inside ∧
      room (guardOf (G.setIfInBounds g inside) g) = d := by
  obtain ⟨inside, he, hin⟩ := room_enter hroom
  obtain ⟨k, rfl⟩ := Nat.exists_eq_succ_of_ne_zero (Nat.ne_zero_of_lt hn)
  exact ⟨k, inside, rfl, Nat.le_of_lt_succ hn, he, hin⟩

/-- Without room there is no reading, not even an empty one. -/
theorem refuses_nested {ι : Type} [DecidableEq ι] [Extent ι] [Terminal Primitive ι]
    (call : Unit → Parser ι Nat) (hroom : room (guardOf G g) = 0) (i : ι) :
    ((nested g).eval call).Refuses G i := by
  have hle : (guardOf G g).maxDepth ≤ (guardOf G g).currentDepth := by
    unfold room at hroom
    omega
  exact refuses_guarded (DepthGuard.enter_of_le hle)

end Guard

/-! ## Any cursor -/

section Cursor

variable {G : Array DepthGuard} {g d n : Nat}

theorem yields_paren (call : Unit → Parser Cursor Nat) (G : Array DepthGuard) (s : String)
    (c : Cursor) :
    (paren call s).Yields G c (Primitive.readLiteral (Text.ofString s) c) :=
  fun t ht => ⟨t.recordAll [], rfl, by rw [RunState.guards_recordAll, ht]⟩

/-- An entry that the guard admits ends with a reading, however a nested one ends. -/
theorem exists_reads_of_inside {call : Unit → Parser Cursor Nat} {inside : DepthGuard}
    (he : (guardOf G g).enter = .ok inside)
    (hinside : ∀ c, ∃ o, (call ()).Yields (G.setIfInBounds g inside) c o) (c : Cursor) :
    ∃ r depth, ((nested g).eval call).Reads G c r depth := by
  obtain ⟨o, ho⟩ := exists_yields_pair (fun s k => ⟨_, yields_paren call _ s k⟩) hinside c
  cases o with
  | success r depth => exact ⟨r, depth, reads_nested he ho⟩
  | failure j l => exact ⟨c, 0, reads_nested_of_refuses he ⟨j, l, ho⟩⟩

/-- **There is an answer on every cursor**, and with room for one entry it is no failure. -/
theorem exists_yields_nested (hn : d ≤ n) (hroom : room (guardOf G g) = d) (c : Cursor) :
    ∃ o, ((nested g).eval ((rules g).call n)).Yields G c o ∧
      (0 < d → ∃ r depth, o = .success r depth) := by
  induction d generalizing n G c with
  | zero =>
    obtain ⟨j, l, hrefused⟩ := refuses_nested ((rules g).call n) hroom c
    exact ⟨_, hrefused, fun h => absurd h (Nat.lt_irrefl 0)⟩
  | succ d ih =>
    obtain ⟨n, inside, rfl, hn, he, hin⟩ := exists_inside hn hroom
    have hinside : ∀ k, ∃ o, ((rules g).call (n + 1) ()).Yields (G.setIfInBounds g inside) k o :=
      fun k => (ih hn hin k).imp fun _ h => h.1
    obtain ⟨r, depth, hread⟩ := exists_reads_of_inside he hinside c
    exact ⟨_, hread, fun _ => ⟨r, depth, rfl⟩⟩

end Cursor

/-! ## So many parentheses -/

section Balanced

variable {G : Array DepthGuard} {g d n m : Nat} {r : List Char}

theorem reads_opening (call : Unit → Parser (List Char) Nat) (G : Array DepthGuard)
    (l : List Char) : (paren call "(").Reads G ('(' :: l) l (Text.ofString "(") :=
  reads_char call G rfl l

theorem refuses_paren (call : Unit → Parser (List Char) Nat) (G : Array DepthGuard) {s : String}
    {ch : Char} (hs : s.toList = [ch]) {l : List Char} (hl : l.head? ≠ some ch) :
    (paren call s).Refuses G l :=
  ⟨_, _, fails_char call G hs hl⟩

/-- **With `d + 1` entries left, up to `d` pairs are read.** -/
theorem reads_balanced (hn : d < n) (hroom : room (guardOf G g) = d + 1) (hm : m ≤ d)
    (hr : r.head? ≠ some '(') :
    ((nested g).eval ((rules g).call n)).Reads G
      (List.replicate m '(' ++ (List.replicate m ')' ++ r)) r m := by
  induction m generalizing d n G r with
  | zero =>
    obtain ⟨inside, he, -⟩ := room_enter hroom
    exact reads_nested_of_refuses he (refuses_pair (refuses_paren _ _ rfl hr))
  | succ m ih =>
    obtain ⟨d, rfl⟩ := Nat.exists_eq_succ_of_ne_zero (Nat.ne_zero_of_lt hm)
    obtain ⟨n, inside, rfl, hn, he, hin⟩ := exists_inside hn hroom
    have hnested := ih (r := ')' :: r) hn hin (Nat.le_of_succ_le_succ hm) (by simp)
    rw [List.replicate_succ, List.replicate_succ', List.append_assoc, List.singleton_append]
    exact reads_nested he (reads_pair (reads_opening _ _ _) hnested (reads_char _ _ rfl r))

/-- **With more pairs than that nothing is read.** -/
theorem reads_tooDeep (hn : d < n) (hroom : room (guardOf G g) = d + 1) (hm : d < m) :
    ((nested g).eval ((rules g).call n)).Reads G (List.replicate m '(' ++ r)
      (List.replicate m '(' ++ r) 0 := by
  induction d generalizing m n G with
  | zero =>
    obtain ⟨m, rfl⟩ := Nat.exists_eq_succ_of_ne_zero (Nat.ne_zero_of_lt hm)
    obtain ⟨n, inside, rfl, -, he, hin⟩ := exists_inside hn hroom
    exact reads_nested_of_refuses he (refuses_pair_of_inside (reads_opening _ _ _)
      (refuses_nested ((rules g).call n) hin _))
  | succ d ih =>
    obtain ⟨m, rfl⟩ := Nat.exists_eq_succ_of_ne_zero (Nat.ne_zero_of_lt hm)
    obtain ⟨n, inside, rfl, hn, he, hin⟩ := exists_inside hn hroom
    have hm' := Nat.lt_of_succ_lt_succ hm
    have hnested := ih hn hin hm'
    -- what is nested has read nothing, so an opening parenthesis stands for the closing one
    have hclosing : (List.replicate m '(' ++ r).head? ≠ some ')' := by
      obtain ⟨m, rfl⟩ := Nat.exists_eq_succ_of_ne_zero (Nat.ne_zero_of_lt hm')
      simp [List.replicate_succ]
    exact reads_nested_of_refuses he (refuses_pair_of_closing (reads_opening _ _ _) hnested
      (refuses_paren _ _ rfl hclosing))

end Balanced

/-! ## The grammar on a text -/

/-- **How deep parentheses are read.**  Under a guard that is made for a nesting limit, with
`k` the limit as clamped and at least one, so many pairs of nested parentheses are read with
their number if that is below `k`, up to the end of the text, and not at all from there on.
There is no cursor on which the grammar fails or halts, and every reading leaves the guards as
they were. -/
theorem nested_reads (s : RunState) (recursionLimit maxDepth : Int) (calls : Nat) :
    let k := Depth.clamp recursionLimit maxDepth Limits.reserveFrames Limits.framesPerLevel
    let guard := s.addGuard recursionLimit maxDepth Limits.framesPerLevel
    let parser : Parser Cursor Nat := (rules guard.1).parse (nested guard.1) calls
    1 ≤ k → k ≤ calls → ∀ t : RunState, t.guards = guard.2.guards →
      (∀ n : Nat, n < k → ∃ t', parser { source := text n } t
        = .ok (.success { source := text n, pos := (text n).size } n) t' ∧
          t'.guards = t.guards) ∧
      (∀ n : Nat, k ≤ n → ∃ t', parser { source := text n } t
        = .ok (.success { source := text n, pos := 0 } 0) t' ∧ t'.guards = t.guards) ∧
      ∀ c, ∃ r depth t', parser c t = .ok (.success r depth) t' ∧ t'.guards = t.guards := by
  intro k guard parser hk hcalls t ht
  obtain ⟨d, hd⟩ : ∃ d, k.toNat = d + 1 := Nat.exists_eq_succ_of_ne_zero (by omega)
  have hroom : room (guardOf t.guards guard.1) = d + 1 := by
    rw [ht, ← hd]
    exact room_addGuard s recursionLimit maxDepth
  have hlt : d < calls := by omega
  refine ⟨fun n hn => ?_, fun n hn => ?_, fun c => ?_⟩
  · have hread : ((rules guard.1).parse (nested guard.1) calls).Reads t.guards
        (text n).toList [] n := by
      have h := reads_balanced (r := []) hlt hroom (show n ≤ d by omega) (by simp)
      rwa [List.append_nil] at h
    obtain ⟨t', ht', hguards⟩ := Rules.parse_of_reads (List.suffix_refl _) hread
    rw [Cursor.leaving_toList] at ht'
    have hend : Cursor.leaving (text n) [] = { source := text n, pos := (text n).size } := by
      simp [Cursor.leaving]
    rw [hend] at ht'
    exact ⟨t', ht', hguards⟩
  · have hread : ((rules guard.1).parse (nested guard.1) calls).Reads t.guards
        (text n).toList (text n).toList 0 := reads_tooDeep hlt hroom (show d < n by omega)
    obtain ⟨t', ht', hguards⟩ := Rules.parse_of_reads (List.suffix_refl _) hread
    rw [Cursor.leaving_toList] at ht'
    exact ⟨t', ht', hguards⟩
  · obtain ⟨o, hyields, hsuccess⟩ := exists_yields_nested hlt hroom c
    obtain ⟨r, depth, rfl⟩ := hsuccess d.succ_pos
    obtain ⟨t', ht', hguards⟩ := hyields t rfl
    exact ⟨r, depth, t', ht', hguards⟩

/-- Under a limit of three, two pairs are read, and of three pairs none is. -/
theorem threeLevels_nested_reads :
    let k := Depth.clamp 1000 3 Limits.reserveFrames Limits.framesPerLevel
    let guard := RunState.addGuard {} 1000 3 Limits.framesPerLevel
    let parser : Parser Cursor Nat := (rules guard.1).parse (nested guard.1) 3
    1 ≤ k ∧ k ≤ (3 : Nat) ∧
      (∃ t', parser { source := text 2 } guard.2
        = .ok (.success { source := text 2, pos := 4 } 2) t' ∧
          t'.guards = #[{ maxDepth := 3 }]) ∧
      ∃ t', parser { source := text 3 } guard.2
        = .ok (.success { source := text 3, pos := 0 } 0) t' ∧
          t'.guards = #[{ maxDepth := 3 }] := by
  intro k guard parser
  have hone : 1 ≤ k := by decide
  have hcalls : k ≤ (3 : Nat) := by decide
  obtain ⟨hread, hdeep, -⟩ := nested_reads {} 1000 3 3 hone hcalls guard.2 rfl
  exact ⟨hone, hcalls, hread 2 (by decide), hdeep 3 (by decide)⟩

end Parentheses
end Descent
