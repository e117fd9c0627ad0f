/-!
# Outcomes

A parser answers with an outcome.  A success carries what is left of the input and a
value.  A failure carries the input that was handed to the parser that saw the mismatch,
and how far into that input the mismatch lies.
-/

namespace Descent

/-- The answer of a parser on inputs `ι` with values `α`. -/
inductive Outcome (ι α : Type) where
  | success (remaining : ι) (value : α)
  | failure (input : ι) (location : Int)
  deriving DecidableEq

namespace Outcome

variable {ι α β : Type}

/-- Change the value of a success; a failure stays as it is. -/
def map (f : α → β) : Outcome ι α → Outcome ι β
  | .success remaining value => .success remaining (f value)
  | .failure input location => .failure input location

@[simp] theorem map_success (f : α → β) (r : ι) (a : α) :
    map f (.success r a) = .success r (f a) := rfl

@[simp] theorem map_failure (f : α → β) (i : ι) (l : Int) :
    map f (.failure i l : Outcome ι α) = .failure i l := rfl

end Outcome
end Descent
