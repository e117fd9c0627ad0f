import Descent.Grammar.Eval

/-!
# Symbols

Text is not the only input.  The simplest other one is a list of symbols: its one terminal
takes a given symbol from the front, and fails at location zero on anything else.
-/

namespace Descent

/-- What can be read from a list of symbols. -/
inductive Symbol (σ : Type) : Type → Type where
  /-- Exactly this symbol. -/
  | exact (a : σ) : Symbol σ σ

namespace Symbol

variable {σ : Type} [DecidableEq σ]

/-- Read a symbol from the front of a list. -/
def read {α : Type} : Symbol σ α → List σ → Outcome (List σ) α
  | .exact a, b :: rest => if b = a then .success rest a else .failure (b :: rest) 0
  | .exact _, [] => .failure [] 0

instance : Terminal (Symbol σ) (List σ) where
  read t symbols := ([], .ok (read t symbols))

end Symbol
end Descent
