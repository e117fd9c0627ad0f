import Descent.Proofs.Reading
import Descent.Proofs.Suffix

/-!
# The language of a parser

On a list of characters a parser is a way of cutting a text off the front and giving it a
value.  A language is the relation between such texts and values, with no word about how
they are found.  A parser is covered by a language if on every input it either refuses or
reads a text of the language (`Parser.Covers`).

Languages of compound parsers are put together from the languages of their parts: a text of
two parts is one after the other, a choice reads what one of its alternatives reads.  That
is all that soundness needs.  Since a covered parser never does anything third, it also
refuses wherever no text of its language stands at the front (`Covers.refuses`), which is
what an ordered choice needs to come to its later alternatives.
-/

namespace Descent
namespace Parser

variable {α β γ : Type} {p : Parser (List Char) α} {q : Parser (List Char) β}
  {G : Array DepthGuard} {L : List Char → α → Prop} {M : List Char → β → Prop}

/-- A value that is checked after it was read, and passes. -/
theorem Reads.mapExcept {ρ : Type} {τ : ρ → Type} (call : ∀ r, Parser (List Char) (τ r))
    {e : Expr Primitive τ α} {f : α → Except Fault β} {l r : List Char} {a : α} {b : β}
    (h : (e.eval call).Reads G l r a) (hf : f a = .ok b) :
    ((Expr.mapExcept f e).eval call).Reads G l r b := by
  refine h.flatMap ?_
  show ((Expr.ofExcept (f a)).eval call).Reads G r r b
  rw [hf]
  exact reads_succeed b

/-- Whatever stands before it, `p` reads a text of the language `L` from the front, with a
value that the text has in `L`, or refuses. -/
def Covers (p : Parser (List Char) α) (G : Array DepthGuard) (L : List Char → α → Prop) :
    Prop :=
  ∀ l, (∃ t a r, l = t ++ r ∧ L t a ∧ p.Reads G l r a) ∨ p.Refuses G l

namespace Covers

/-- Where no text of the language stands, the parser refuses. -/
theorem refuses (h : p.Covers G L) {l : List Char}
    (hno : ∀ t a r, L t a → l ≠ t ++ r) : p.Refuses G l := by
  rcases h l with ⟨t, a, r, hl, hL, _⟩ | hr
  · exact absurd hl (hno t a r hL)
  · exact hr

theorem mono {L' : List Char → α → Prop} (h : p.Covers G L)
    (hL : ∀ t a, L t a → L' t a) : p.Covers G L' := by
  intro l
  rcases h l with ⟨t, a, r, hl, ht, hr⟩ | hr
  · exact Or.inl ⟨t, a, r, hl, hL t a ht, hr⟩
  · exact Or.inr hr

theorem map (f : α → β) (h : p.Covers G L) :
    (Parser.map f p).Covers G fun t b => ∃ a, L t a ∧ f a = b := by
  intro l
  rcases h l with ⟨t, a, r, hl, ht, hr⟩ | hr
  · exact Or.inl ⟨t, f a, r, hl, ⟨a, ht, rfl⟩, hr.map f⟩
  · exact Or.inr (hr.map f)

theorem both (h : p.Covers G L) (h' : q.Covers G M) :
    (Parser.both p q).Covers G fun t ab =>
      ∃ u w, t = u ++ w ∧ L u ab.1 ∧ M w ab.2 := by
  intro l
  rcases h l with ⟨u, a, m, hl, hu, hr⟩ | hr
  · rcases h' m with ⟨w, b, r, hm, hw, hr'⟩ | hr'
    · refine Or.inl ⟨u ++ w, (a, b), r, ?_, ⟨u, w, rfl, hu, hw⟩, hr.both hr'⟩
      rw [hl, hm, List.append_assoc]
    · exact Or.inr (Refuses.both_next hr hr')
  · exact Or.inr hr.both

theorem preceded (h : p.Covers G L) (h' : q.Covers G M) :
    (Parser.preceded p q).Covers G fun t b =>
      ∃ u w a, t = u ++ w ∧ L u a ∧ M w b := by
  refine ((h.both h').map fun ab : α × β => ab.2).mono ?_
  rintro t b ⟨⟨a, b⟩, ⟨u, w, ht, hu, hw⟩, rfl⟩
  exact ⟨u, w, a, ht, hu, hw⟩

theorem terminated (h : p.Covers G L) (h' : q.Covers G M) :
    (Parser.terminated p q).Covers G fun t a =>
      ∃ u w b, t = u ++ w ∧ L u a ∧ M w b := by
  refine ((h.both h').map fun ab : α × β => ab.1).mono ?_
  rintro t a ⟨⟨a, b⟩, ⟨u, w, ht, hu, hw⟩, rfl⟩
  exact ⟨u, w, b, ht, hu, hw⟩

theorem optional (h : p.Covers G L) :
    (Parser.optional p).Covers G fun t o =>
      (t = [] ∧ o = none) ∨ ∃ a, L t a ∧ o = some a := by
  intro l
  rcases h l with ⟨t, a, r, hl, ht, hr⟩ | hr
  · exact Or.inl ⟨t, some a, r, hl, Or.inr ⟨a, ht, rfl⟩, hr.optional⟩
  · exact Or.inl ⟨[], none, l, rfl, Or.inl ⟨rfl, rfl⟩, hr.optional⟩

theorem sequence_nil :
    (Parser.sequence ([] : List (Parser (List Char) α))).Covers G fun t as => t = [] ∧ as = [] :=
  fun l => Or.inl ⟨[], [], l, rfl, ⟨rfl, rfl⟩, reads_succeed []⟩

theorem sequence_cons {ps : List (Parser (List Char) α)} {N : List Char → List α → Prop}
    (h : p.Covers G L) (hps : (Parser.sequence ps).Covers G N) :
    (Parser.sequence (p :: ps)).Covers G fun t as =>
      ∃ u w a bs, t = u ++ w ∧ as = a :: bs ∧ L u a ∧ N w bs := by
  rw [Parser.sequence_cons]
  refine ((h.both hps).map fun ab : α × List α => ab.1 :: ab.2).mono ?_
  rintro t as ⟨⟨a, bs⟩, ⟨u, w, ht, hu, hw⟩, rfl⟩
  exact ⟨u, w, a, bs, ht, rfl, hu, hw⟩

/-- Values that are checked after they were read, and pass. -/
theorem mapExcept {ρ : Type} {τ : ρ → Type} (call : ∀ r, Parser (List Char) (τ r))
    (e : Expr Primitive τ α) {f : α → Except Fault β} (h : (e.eval call).Covers G L)
    (hf : ∀ t a, L t a → ∃ b, f a = .ok b ∧ M t b) :
    ((Expr.mapExcept f e).eval call).Covers G M := by
  intro l
  rcases h l with ⟨t, a, r, hl, ht, hr⟩ | hr
  · obtain ⟨b, hb, hM⟩ := hf t a ht
    exact Or.inl ⟨t, b, r, hl, hM, hr.mapExcept call hb⟩
  · exact Or.inr hr.flatMap

theorem oneOfFrom_nil (j : List Char) (i : Int) :
    (Parser.oneOfFrom j i ([] : List (Parser (List Char) α))).Covers G fun _ _ => False :=
  fun _ => Or.inr (refuses_oneOfFrom_nil j i)

theorem oneOfFrom_cons {ps : List (Parser (List Char) α)} {L' : List Char → α → Prop}
    (h : p.Covers G L) (hps : ∀ j i, (Parser.oneOfFrom j i ps).Covers G L')
    (j : List Char) (i : Int) :
    (Parser.oneOfFrom j i (p :: ps)).Covers G fun t a => L t a ∨ L' t a := by
  intro l
  rcases h l with ⟨t, a, r, hl, ht, hr⟩ | hr
  · exact Or.inl ⟨t, a, r, hl, Or.inl ht, hr.oneOfFrom j i⟩
  · -- the failure that is carried along does not decide whether the others read
    obtain ⟨x, hx, hx'⟩ : ∃ x, (Parser.oneOfFrom j i (p :: ps)).Yields G l x ∧
        ((∃ t a r, l = t ++ r ∧ L' t a ∧ x = .success r a) ∨ ∃ j' i', x = .failure j' i') := by
      refine hr.yields_oneOfFrom (fun j' i' => ?_) j i
      rcases hps j' i' l with ⟨t, a, r, hl, ht, hr'⟩ | ⟨j'', i'', hr'⟩
      · exact ⟨_, hr', Or.inl ⟨t, a, r, hl, ht, rfl⟩⟩
      · exact ⟨_, hr', Or.inr ⟨j'', i'', rfl⟩⟩
    rcases hx' with ⟨t, a, r, hl, ht, rfl⟩ | ⟨j', i', rfl⟩
    · exact Or.inl ⟨t, a, r, hl, Or.inr ht, hx⟩
    · exact Or.inr ⟨j', i', hx⟩

theorem oneOf {ps : List (Parser (List Char) α)} {L' : List Char → α → Prop}
    (h : p.Covers G L) (hps : ∀ j i, (Parser.oneOfFrom j i ps).Covers G L') :
    (Parser.oneOf p ps).Covers G fun t a => L t a ∨ L' t a := by
  intro l
  rcases h l with ⟨t, a, r, hl, ht, hr⟩ | ⟨j, i, hr⟩
  · exact Or.inl ⟨t, a, r, hl, Or.inl ht, hr.oneOf⟩
  · have hyields : ∀ {o}, (Parser.oneOfFrom j i ps).Yields G l o →
        (Parser.oneOf p ps).Yields G l o := by
      intro o ho s hs
      obtain ⟨s', h₁, hs'⟩ := hr s hs
      rw [oneOf_apply, h₁]
      exact ho s' hs'
    rcases hps j i l with ⟨t, a, r, hl, ht, hr'⟩ | ⟨j', i', hr'⟩
    · exact Or.inl ⟨t, a, r, hl, Or.inr ht, hyields hr'⟩
    · exact Or.inr ⟨j', i', hyields hr'⟩

theorem guarded {g : Nat} {inside : DepthGuard} (he : (guardOf G g).enter = .ok inside)
    (h : p.Covers (G.setIfInBounds g inside) L) : (Parser.guarded g p).Covers G L := by
  intro l
  rcases h l with ⟨t, a, r, hl, ht, hr⟩ | ⟨j, i, hr⟩
  · exact Or.inl ⟨t, a, r, hl, ht, hr.guarded he⟩
  · exact Or.inr ⟨j, i, hr.guarded he⟩

/-- A guard that stands at its limit leaves nothing to read. -/
theorem guarded_of_refused {g : Nat} {e : DepthGuard.LimitExceeded}
    (he : (guardOf G g).enter = .error e) : (Parser.guarded g p).Covers G L :=
  fun _ => Or.inr (refuses_guarded he)

end Covers

/-! ## Items with separators between them -/

/-- Texts of `L` with texts of `S` between them, and the list of their values. -/
inductive Interleaved (L : List Char → α → Prop) (S : List Char → Prop) :
    List Char → List α → Prop where
  | single {t : List Char} {a : α} (h : L t a) : Interleaved L S t [a]
  | cons {t m rest : List Char} {a : α} {as : List α} (h : L t a) (hm : S m)
      (hrest : Interleaved L S rest as) : Interleaved L S (t ++ m ++ rest) (a :: as)

/-- A separated repetition whose separators are not empty reads nothing, or items with
separators between them. -/
theorem Covers.separated (hp : p.Covers G L) (hq : q.Covers G M)
    (hM : ∀ t b, M t b → t ≠ []) :
    (Parser.separated p q).Covers G fun t as =>
      (t = [] ∧ as = []) ∨ Interleaved L (fun m => ∃ b, M m b) t as := by
  -- by the length of the input, for the items from any point on; what is given back is the
  -- remainder `c` of the item before it
  have items : ∀ (n : Nat) (l : List Char), l.length = n → ∀ c,
      (∃ as t r, l = t ++ r ∧ Interleaved L (fun m => ∃ b, M m b) t as ∧
        ItemsFrom p q G c l r as) ∨ ItemsFrom p q G c l c [] := by
    intro n
    induction n using Nat.strongRecOn with
    | ind n ih =>
      intro l hn c
      rcases hp l with ⟨t, a, r, hl, ht, hr⟩ | hr
      · rcases hq r with ⟨w, b, m, hw, hb, hm⟩ | hq'
        · have hlt : m.length < l.length := by
            have hpos := List.length_pos_iff.mpr (hM w b hb)
            rw [hl, hw, List.length_append, List.length_append]
            omega
          rcases ih m.length (hn ▸ hlt) m rfl r with ⟨as, u, r', hu, hint, hrest⟩ | hrest
          · refine Or.inl ⟨a :: as, t ++ w ++ u, r', ?_, .cons ht ⟨b, hb⟩ hint,
              .more hr hm hlt hrest⟩
            rw [hl, hw, hu, List.append_assoc, List.append_assoc]
          · exact Or.inl ⟨[a], t, r, hl, .single ht, .more hr hm hlt hrest⟩
        · exact Or.inl ⟨[a], t, r, hl, .single ht, .last hr hq'⟩
      · exact Or.inr (.stop hr)
  intro l
  rcases items l.length l rfl l with ⟨as, t, r, hl, hint, h⟩ | h
  · exact Or.inl ⟨t, as, r, hl, Or.inr hint, h.reads⟩
  · exact Or.inl ⟨[], [], l, rfl, Or.inl ⟨rfl, rfl⟩, h.reads⟩

/-! ## The primitives -/

section Terminals

variable {ρ : Type} {τ : ρ → Type} (call : ∀ r, Parser (List Char) (τ r))

theorem yields_terminal (G : Array DepthGuard) (t : Primitive α) (l : List Char) :
    ((Expr.terminal t : Expr Primitive τ α).eval call).Yields G l (t.readList l) := by
  intro s hs
  exact ⟨s.recordAll [], rfl, by rw [RunState.guards_recordAll, hs]⟩

theorem reads_literal (G : Array DepthGuard) (s : String) (r : List Char) :
    ((Expr.literal s : Expr Primitive τ Text).eval call).Reads G (s.toList ++ r) r
      (Text.ofString s) := by
  have h := yields_terminal call G (.literal (Text.ofString s)) (s.toList ++ r)
  rw [Primitive.readList, if_pos (by
    rw [List.isPrefixOf_iff_prefix]
    exact List.prefix_append _ _)] at h
  rwa [← Array.length_toList, Text.toList_ofString, List.drop_left] at h

theorem covers_literal (G : Array DepthGuard) (s : String) :
    ((Expr.literal s : Expr Primitive τ Text).eval call).Covers G
      fun t a => t = s.toList ∧ a = Text.ofString s := by
  intro l
  by_cases h : s.toList <+: l
  · obtain ⟨r, rfl⟩ := h
    exact Or.inl ⟨s.toList, _, r, rfl, ⟨rfl, rfl⟩, reads_literal call G s r⟩
  · have h' := yields_terminal call G (.literal (Text.ofString s)) l
    rw [Primitive.readList, if_neg (by
      rwa [List.isPrefixOf_iff_prefix, Text.toList_ofString])] at h'
    exact Or.inr ⟨_, _, h'⟩

/-- The characters of a class end where one follows that is not of the class. -/
theorem takeWhile_dropWhile_append {p : Char → Bool} {w r : List Char}
    (hw : ∀ ch ∈ w, p ch = true) (hr : ∀ ch ∈ r.head?, p ch = false) :
    (w ++ r).takeWhile p = w ∧ (w ++ r).dropWhile p = r := by
  rw [List.takeWhile_append_of_pos hw, List.dropWhile_append_of_pos hw]
  cases r with
  | nil => simp
  | cons ch r => simp [hr ch rfl]

/-- A run that may not be empty takes its characters up to the first that is not of its
class. -/
theorem reads_run (G : Array DepthGuard) {cls : CharClass} {w r : List Char} (hne : w ≠ [])
    (hw : ∀ ch ∈ w, cls.admits ch = true) (hr : ∀ ch ∈ r.head?, cls.admits ch = false) :
    ((Expr.run cls : Expr Primitive τ Text).eval call).Reads G (w ++ r) r w.toArray := by
  have h := yields_terminal call G (.run cls false) (w ++ r)
  obtain ⟨htake, hdrop⟩ := takeWhile_dropWhile_append hw hr
  rwa [Primitive.readList, htake, hdrop, if_neg (by simpa using hne)] at h

theorem covers_run (G : Array DepthGuard) (cls : CharClass) :
    ((Expr.run cls : Expr Primitive τ Text).eval call).Covers G fun t a =>
      t ≠ [] ∧ (∀ ch ∈ t, cls.admits ch = true) ∧ a = t.toArray := by
  intro l
  have h := yields_terminal call G (.run cls false) l
  rw [Primitive.readList] at h
  by_cases hne : l.takeWhile cls.admits = []
  · rw [hne] at h
    exact Or.inr ⟨_, _, h⟩
  · rw [if_neg (by simpa using hne)] at h
    exact Or.inl ⟨_, _, _, (List.takeWhile_append_dropWhile).symm,
      ⟨hne, fun ch hch => List.all_eq_true.mp List.all_takeWhile ch hch, rfl⟩, h⟩

/-- A run that may be empty takes its characters up to the first that is not of its
class. -/
theorem yields_runOrEmpty (G : Array DepthGuard) (cls : CharClass) (l : List Char) :
    ((Expr.runOrEmpty cls : Expr Primitive τ Text).eval call).Reads G l
      (l.dropWhile cls.admits) (l.takeWhile cls.admits).toArray := by
  have h := yields_terminal call G (.run cls true) l
  rwa [Primitive.readList, if_neg (by simp)] at h

theorem covers_runOrEmpty (G : Array DepthGuard) (cls : CharClass) :
    ((Expr.runOrEmpty cls : Expr Primitive τ Text).eval call).Covers G fun t a =>
      (∀ ch ∈ t, cls.admits ch = true) ∧ a = t.toArray := by
  intro l
  exact Or.inl ⟨_, _, _, (List.takeWhile_append_dropWhile).symm,
    ⟨fun ch hch => List.all_eq_true.mp List.all_takeWhile ch hch, rfl⟩,
    yields_runOrEmpty call G cls l⟩

end Terminals

end Parser

/-! ## From the list to the cursor -/

section Cursor

variable {ρ : Type} {τ : ρ → Type} {rules : Rules Primitive τ} {α : Type}
  {e : Expr Primitive τ α} {calls : Nat} {source : Text} {l r : List Char} {a : α}
  {s : RunState}

/-- What is read from the list that a cursor leaves is read from the cursor. -/
theorem Rules.parse_of_reads (hl : l <:+ source.toList)
    (h : (rules.parse e calls).Reads s.guards l r a) :
    ∃ s', rules.parse e calls (Cursor.leaving source l) s
      = .ok (.success (Cursor.leaving source r) a) s' ∧ s'.guards = s.guards := by
  obtain ⟨t, ht, _⟩ := h s rfl
  have halike := rules.parse_leaving e calls hl s
  rw [ht] at halike
  generalize rules.parse e calls (Cursor.leaving source l) s = x at halike ⊢
  cases halike with
  | @success r' _ s' _ hr _ hs _ => exact ⟨s', by rw [hr.eq], hs⟩

/-- A failure on the list that a cursor leaves is one on the cursor, with the same location. -/
theorem Rules.parse_of_fails {location : Int} (hl : l <:+ source.toList)
    (h : (rules.parse e calls).Fails s.guards l r location) :
    ∃ s', rules.parse e calls (Cursor.leaving source l) s
      = .ok (.failure (Cursor.leaving source r) location) s' ∧ s'.guards = s.guards ∧
        r <:+ l := by
  obtain ⟨t, ht, _⟩ := h s rfl
  have halike := rules.parse_leaving e calls hl s
  rw [ht] at halike
  generalize rules.parse e calls (Cursor.leaving source l) s = x at halike ⊢
  cases halike with
  | @failure j _ s' _ hj _ hs _ => exact ⟨s', by rw [hj.eq], hs, hj.suffix⟩

/-- What is refused on the list that a cursor leaves is refused on the cursor, and the
failure lies inside the text. -/
theorem Rules.parse_of_refuses (hl : l <:+ source.toList)
    (h : (rules.parse e calls).Refuses s.guards l) :
    ∃ j location s', rules.parse e calls (Cursor.leaving source l) s
      = .ok (.failure j location) s' ∧ s'.guards = s.guards ∧
        j.source = source ∧ 0 ≤ j.pos ∧ j.pos ≤ source.size := by
  obtain ⟨m, location, h⟩ := h
  obtain ⟨s', hs', hg, hm⟩ := Rules.parse_of_fails hl h
  have hlen := (hm.trans hl).length_le
  have hsize : source.toList.length = source.size := Array.length_toList
  refine ⟨_, location, s', hs', hg, rfl, ?_, ?_⟩
  · simp only [Cursor.leaving]
    omega
  · simp only [Cursor.leaving]
    omega

end Cursor

end Descent
