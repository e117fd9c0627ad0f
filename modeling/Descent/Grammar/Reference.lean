import Descent.Grammar.Basic

/-!
# References that no guard stands before

Reading a rule may begin with reading another one, or itself, before anything is consumed;
only a guard is sure to stop such a chain.  An expression refers openly to a rule when it
mentions the rule outside all of its guarded parts, counting the parts that the factories
of `flatMap` may make.  A grammar is guarded when no chain of open references runs for
ever.
-/

namespace Descent

variable {Λ : Type → Type} {ρ : Type} {τ : ρ → Type}

/-- Whether an expression mentions the rule `r` outside its guarded parts. -/
def Expr.RefersOpenly (r : ρ) {α : Type} : Expr Λ τ α → Prop
  | .terminal _ => False
  | .succeed _ => False
  | .fail _ => False
  | .raise _ => False
  | .map _ p => RefersOpenly r p
  | .flatMap p f => RefersOpenly r p ∨ ∃ a, RefersOpenly r (f a)
  | .sequence _ ps => ∃ k, RefersOpenly r (ps k)
  | .oneOf p _ ps => RefersOpenly r p ∨ ∃ k, RefersOpenly r (ps k)
  | .optional p => RefersOpenly r p
  | .repeated _ p => RefersOpenly r p
  | .separated p q => RefersOpenly r p ∨ RefersOpenly r q
  | .ref r' => r' = r
  | .guarded _ _ => False

/-- One rule refers openly to another. -/
def Rules.OpenReference (rules : Rules Λ τ) (r r' : ρ) : Prop :=
  (rules r').RefersOpenly r

/-- Every cycle of references passes a guard: no rule is reached from itself by open
references. -/
def Rules.CyclesGuarded (rules : Rules Λ τ) : Prop :=
  ∀ r, ¬ Relation.TransGen rules.OpenReference r r

end Descent
