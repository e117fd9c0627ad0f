import Descent.Parser.Basic

/-!
# Guarded parsers

A guarded parser counts how many of its invocations are active and refuses the one that
would exceed its limit.  A refusal is a failure on the parser's own input at location
zero, and so is a stack that runs out inside.
-/

namespace Descent
namespace Parser

variable {ι α : Type} [Headroom]

/-- Limit how deeply `p` may nest within itself, by the guard at place `g`. -/
def guarded (g : Nat) (p : Parser ι α) : Parser ι α := fun i =>
  Run.within g (.failure i 0) (p i)

end Parser
end Descent
