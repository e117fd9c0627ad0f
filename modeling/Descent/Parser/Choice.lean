import Descent.Parser.Basic

/-!
# Ordered choice

A choice tries its alternatives in order on the same input and stops at the first that
succeeds.  When all of them fail it reports one of their failures verbatim: one with the
largest location, and of those the one that came first.
-/

namespace Descent
namespace Parser

variable {ι α : Type}

/-- The rest of a choice, with the best failure so far. -/
def oneOfFrom (input : ι) (location : Int) : List (Parser ι α) → Parser ι α
  | [] => fun _ => pure (.failure input location)
  | p :: ps => fun i => do
    match ← p i with
    | .success r a => pure (.success r a)
    | .failure j l =>
      if location < l then oneOfFrom j l ps i else oneOfFrom input location ps i

/-- The first success of `p` and of `ps`, or the farthest of their failures. -/
def oneOf (p : Parser ι α) (ps : List (Parser ι α)) : Parser ι α := fun i => do
  match ← p i with
  | .success r a => pure (.success r a)
  | .failure j l => oneOfFrom j l ps i

variable {i j : ι} {l : Int} {s : RunState}

@[simp] theorem oneOfFrom_nil :
    oneOfFrom j l ([] : List (Parser ι α)) i s = .ok (.failure j l) s := rfl

theorem oneOfFrom_cons (p : Parser ι α) (ps : List (Parser ι α)) :
    oneOfFrom j l (p :: ps) i s = match p i s with
      | .ok (.success r a) s' => .ok (.success r a) s'
      | .ok (.failure j' l') s' =>
          if l < l' then oneOfFrom j' l' ps i s' else oneOfFrom j l ps i s'
      | .error h s' => .error h s' := by
  simp only [oneOfFrom, bind, EStateM.bind]
  rcases p i s with ⟨o, s'⟩ | ⟨h, s'⟩
  · cases o with
    | success r a => rfl
    | failure j' l' => by_cases hl : l < l' <;> simp [hl]
  · rfl

theorem oneOf_apply (p : Parser ι α) (ps : List (Parser ι α)) :
    oneOf p ps i s = match p i s with
      | .ok (.success r a) s' => .ok (.success r a) s'
      | .ok (.failure j l) s' => oneOfFrom j l ps i s'
      | .error h s' => .error h s' := by
  unfold oneOf
  simp only [bind, EStateM.bind]
  rcases p i s with ⟨o, s'⟩ | ⟨h, s'⟩
  · cases o <;> rfl
  · rfl

end Parser
end Descent
