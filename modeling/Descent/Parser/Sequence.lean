import Descent.Parser.Basic

/-!
# Sequences

A sequence runs a list of parsers, each on what the one before it left, and collects
their values in order.  The first failure is the failure of the whole, and no parser
after it is run.
-/

namespace Descent
namespace Parser

variable {ι α β : Type}

/-- The rest of a sequence, with the values collected so far. -/
def sequenceFrom (values : Array α) : List (Parser ι α) → Parser ι (List α)
  | [] => fun i => pure (.success i values.toList)
  | p :: ps => fun i => do
    match ← p i with
    | .success r a => sequenceFrom (values.push a) ps r
    | .failure j l => pure (.failure j l)

/-- Run parsers one after the other and collect their values. -/
def sequence (ps : List (Parser ι α)) : Parser ι (List α) := sequenceFrom #[] ps

/-- A sequence whose list of values is turned into one value. -/
def chain (f : List α → β) (ps : List (Parser ι α)) : Parser ι β := map f (sequence ps)

@[simp] theorem sequenceFrom_nil (values : Array α) :
    sequenceFrom values ([] : List (Parser ι α)) = succeed values.toList := rfl

theorem sequenceFrom_cons (values : Array α) (p : Parser ι α) (ps : List (Parser ι α)) :
    sequenceFrom values (p :: ps) = flatMap p fun a => sequenceFrom (values.push a) ps :=
  rfl

end Parser
end Descent
