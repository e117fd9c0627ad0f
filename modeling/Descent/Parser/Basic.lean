import Descent.Run

/-!
# Parsers, and the ways to change or extend one

A parser maps an input to a computation of an outcome.  The combinators of this module
pass the first failure on verbatim, with the same input and the same location; only a
success goes on to the next step.
-/

namespace Descent

/-- A parser on inputs `ι` with values `α`. -/
abbrev Parser (ι α : Type) := ι → Run (Outcome ι α)

namespace Parser

variable {ι α β γ : Type}

/-- Succeed with a value and consume nothing. -/
def succeed (a : α) : Parser ι α := fun i => pure (.success i a)

/-- Fail on the given input, at a location that does not depend on it. -/
def fail (location : Int := 0) : Parser ι α := fun i => pure (.failure i location)

/-- End the parse with a fault. -/
def raise (f : Fault) : Parser ι α := fun _ => Run.fault f

/-- Change the value of a success. -/
def map (f : α → β) (p : Parser ι α) : Parser ι β := fun i => do
  match ← p i with
  | .success r a => pure (.success r (f a))
  | .failure j l => pure (.failure j l)

/-- Go on, after a success, with a parser chosen by its value. -/
def flatMap (p : Parser ι α) (f : α → Parser ι β) : Parser ι β := fun i => do
  match ← p i with
  | .success r a => f a r
  | .failure j l => pure (.failure j l)

/-- One parser after the other, with both values. -/
def both (p : Parser ι α) (q : Parser ι β) : Parser ι (α × β) :=
  flatMap p fun a => map (fun b => (a, b)) q

/-- One parser after the other, with their values combined. -/
def map2 (f : α → β → γ) (p : Parser ι α) (q : Parser ι β) : Parser ι γ :=
  map (fun ab => f ab.1 ab.2) (both p q)

/-- One parser after the other, with the value of the second. -/
def preceded (p : Parser ι α) (q : Parser ι β) : Parser ι β := map2 (fun _ b => b) p q

/-- One parser after the other, with the value of the first. -/
def terminated (p : Parser ι α) (q : Parser ι β) : Parser ι α := map2 (fun a _ => a) p q

/-- Never fail: a failure is undone, and counts as a success without a value. -/
def optional (p : Parser ι α) : Parser ι (Option α) := fun i => do
  match ← p i with
  | .success r a => pure (.success r (some a))
  | .failure _ _ => pure (.success i none)

/-! ## What each of them does to one input -/

@[simp] theorem succeed_apply (a : α) (i : ι) (s : RunState) :
    (succeed a : Parser ι α) i s = .ok (.success i a) s := rfl

@[simp] theorem fail_apply (l : Int) (i : ι) (s : RunState) :
    (fail l : Parser ι α) i s = .ok (.failure i l) s := rfl

@[simp] theorem raise_apply (f : Fault) (i : ι) (s : RunState) :
    (raise f : Parser ι α) i s = .error (.fault f) s := rfl

variable {i : ι} {s : RunState}

theorem map_apply (f : α → β) (p : Parser ι α) :
    map f p i s = match p i s with
      | .ok o s' => .ok (o.map f) s'
      | .error h s' => .error h s' := by
  unfold map
  simp only [bind, EStateM.bind]
  rcases p i s with ⟨o, s'⟩ | ⟨h, s'⟩
  · cases o <;> rfl
  · rfl

theorem flatMap_apply (p : Parser ι α) (f : α → Parser ι β) :
    flatMap p f i s = match p i s with
      | .ok (.success r a) s' => f a r s'
      | .ok (.failure j l) s' => .ok (.failure j l) s'
      | .error h s' => .error h s' := by
  unfold flatMap
  simp only [bind, EStateM.bind]
  rcases p i s with ⟨o, s'⟩ | ⟨h, s'⟩
  · cases o <;> rfl
  · rfl

theorem optional_apply (p : Parser ι α) :
    optional p i s = match p i s with
      | .ok (.success r a) s' => .ok (.success r (some a)) s'
      | .ok (.failure _ _) s' => .ok (.success i none) s'
      | .error h s' => .error h s' := by
  unfold optional
  simp only [bind, EStateM.bind]
  rcases p i s with ⟨o, s'⟩ | ⟨h, s'⟩
  · cases o <;> rfl
  · rfl

/-- Changing the value is going on with the changed value. -/
theorem map_eq_flatMap (f : α → β) (p : Parser ι α) :
    map f p = flatMap p fun a => succeed (f a) := by
  funext i s
  rw [map_apply, flatMap_apply]
  rcases p i s with ⟨o, s'⟩ | ⟨h, s'⟩
  · cases o <;> rfl
  · rfl

/-- Going on twice is going on once with the composite. -/
theorem flatMap_flatMap (p : Parser ι α) (f : α → Parser ι β) (g : β → Parser ι γ) :
    flatMap (flatMap p f) g = flatMap p fun a => flatMap (f a) g := by
  funext i s
  rw [flatMap_apply, flatMap_apply, flatMap_apply]
  rcases p i s with ⟨o, s'⟩ | ⟨h, s'⟩
  · cases o with
    | success r a => simp only [flatMap_apply]
    | failure j l => rfl
  · rfl

@[simp] theorem succeed_flatMap (a : α) (f : α → Parser ι β) :
    flatMap (succeed a) f = f a := rfl

end Parser
end Descent
