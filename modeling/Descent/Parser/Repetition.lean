import Descent.Input
import Descent.Parser.Basic

/-!
# Repetition

A repetition runs a parser again and again, each time on what it left, until it fails.
An application that succeeds without moving also ends it, with its value kept, since it
would succeed in the same way for ever.  Whether a step moved is decided by comparing
inputs.

Each round that goes on starts from an input with less left to read, so one round more
than the extent of the input is enough.  A repetition that is granted fewer rounds than it
needs halts unfinished.
-/

namespace Descent
namespace Parser

variable {ι α β : Type} [DecidableEq ι]

/-- At most `rounds` further rounds of a repetition, with the values collected so far. -/
def repeatFrom (minimum : Nat) (p : Parser ι α) :
    Nat → Array α → Parser ι (List α)
  | 0, _ => fun _ => Run.unfinished
  | rounds + 1, values => fun i => do
    match ← p i with
    | .failure j l =>
      if values.size < minimum then pure (.failure j l)
      else pure (.success i values.toList)
    | .success r a =>
      if r = i then pure (.success i (values.push a).toList)
      else repeatFrom minimum p rounds (values.push a) r

/-- At most `rounds` further rounds of a separated repetition.  The next item is read from
`i`; `committed` is what is left after the last item. -/
def separatedFrom (p : Parser ι α) (separator : Parser ι β) :
    Nat → Array α → ι → Parser ι (List α)
  | 0, _, _ => fun _ => Run.unfinished
  | rounds + 1, values, committed => fun i => do
    match ← p i with
    | .failure _ _ => pure (.success committed values.toList)
    | .success r a =>
      match ← separator r with
      | .failure _ _ => pure (.success r (values.push a).toList)
      | .success next _ =>
        if next = i then pure (.success r (values.push a).toList)
        else separatedFrom p separator rounds (values.push a) r next

variable [Extent ι]

/-- Repeat a parser until it fails; fewer than `minimum` matches are a failure. -/
def repeated (minimum : Nat) (p : Parser ι α) : Parser ι (List α) := fun i =>
  repeatFrom minimum p (extent i + 1) #[] i

/-- Any number of matches.  Never fails. -/
def many (p : Parser ι α) : Parser ι (List α) := repeated 0 p

/-- One match or more. -/
def many1 (p : Parser ι α) : Parser ι (List α) := repeated 1 p

/-- Any number of matches with a separator between them.  Never fails.  A separator is
consumed only together with the item after it. -/
def separated (p : Parser ι α) (separator : Parser ι β) : Parser ι (List α) := fun i =>
  separatedFrom p separator (extent i + 1) #[] i i

/-! ## One round -/

omit [Extent ι]

variable {i j : ι} {s : RunState} {values : Array α} {rounds : Nat}

@[simp] theorem repeatFrom_zero (minimum : Nat) (p : Parser ι α) :
    repeatFrom minimum p 0 values i s = .error .unfinished s := rfl

theorem repeatFrom_succ (minimum : Nat) (p : Parser ι α) :
    repeatFrom minimum p (rounds + 1) values i s = match p i s with
      | .ok (.failure j l) s' =>
          if values.size < minimum then .ok (.failure j l) s'
          else .ok (.success i values.toList) s'
      | .ok (.success r a) s' =>
          if r = i then .ok (.success i (values.push a).toList) s'
          else repeatFrom minimum p rounds (values.push a) r s'
      | .error h s' => .error h s' := by
  simp only [repeatFrom, bind, EStateM.bind]
  rcases p i s with ⟨o, s'⟩ | ⟨h, s'⟩
  · cases o with
    | success r a => by_cases hr : r = i <;> simp [hr, pure, EStateM.pure]
    | failure j l => by_cases hv : values.size < minimum <;> simp [hv, pure, EStateM.pure]
  · rfl

@[simp] theorem separatedFrom_zero (p : Parser ι α) (separator : Parser ι β) :
    separatedFrom p separator 0 values j i s = .error .unfinished s := rfl

theorem separatedFrom_succ (p : Parser ι α) (separator : Parser ι β) :
    separatedFrom p separator (rounds + 1) values j i s = match p i s with
      | .ok (.failure _ _) s' => .ok (.success j values.toList) s'
      | .ok (.success r a) s' =>
          match separator r s' with
          | .ok (.failure _ _) s'' => .ok (.success r (values.push a).toList) s''
          | .ok (.success next _) s'' =>
              if next = i then .ok (.success r (values.push a).toList) s''
              else separatedFrom p separator rounds (values.push a) r next s''
          | .error h s'' => .error h s''
      | .error h s' => .error h s' := by
  simp only [separatedFrom, bind, EStateM.bind]
  rcases p i s with ⟨o, s'⟩ | ⟨h, s'⟩
  · cases o with
    | failure j l => rfl
    | success r a =>
      dsimp only [EStateM.bind]
      rcases separator r s' with ⟨o, s''⟩ | ⟨h, s''⟩
      · cases o with
        | failure j l => rfl
        | success next b => by_cases hn : next = i <;> simp [hn, pure, EStateM.pure]
      · rfl
  · rfl

end Parser
end Descent
