/-!
# Inputs

The algebra of parsers never looks inside its input.  It passes inputs along, compares
them to see whether a step moved, and returns them in failures.  The one thing more that
it asks of an input type is a measure of how much is left, which bounds every repetition:
a repetition that goes on always goes on from an input with less left.
-/

namespace Descent

/-- A type of inputs with a measure of how much is left to read. -/
class Extent (ι : Type) where
  /-- How much is left to read. -/
  extent : ι → Nat

export Extent (extent)

/-- A list of symbols is an input; its length is what is left. -/
instance {σ : Type} : Extent (List σ) where
  extent := List.length

@[simp] theorem extent_list {σ : Type} (l : List σ) : extent l = l.length := rfl

end Descent
