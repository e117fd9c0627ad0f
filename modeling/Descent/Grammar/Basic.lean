import Descent.Fault

/-!
# Grammars

A grammar is a family of named rules, and a rule is an expression over terminals.  An
expression says how its value is read: what is read in order, what is tried instead of
what, what is repeated, and which rule is meant at a place.  Since a rule is meant by its
name, rules may refer to each other and to themselves.

Expressions are data.  What a property says of every grammar is said by recursion on
them; what an expression does to an input is defined in `Descent.Grammar.Eval`.

Two families of types index an expression: `Λ α` are the terminals that yield an `α`, and
the rule named `r` yields a `τ r`.  Alternatives and sequences are finite families, so
that an expression is an ordinary inductive value however many parts it has.
-/

namespace Descent

/-- How a value is read: the right-hand side of a rule, or a part of one. -/
inductive Expr (Λ : Type → Type) {ρ : Type} (τ : ρ → Type) : Type → Type 1 where
  /-- A terminal. -/
  | terminal {α : Type} (t : Λ α) : Expr Λ τ α
  /-- A value without reading. -/
  | succeed {α : Type} (a : α) : Expr Λ τ α
  /-- A failure at a fixed location. -/
  | fail {α : Type} (location : Int) : Expr Λ τ α
  /-- A fault. -/
  | raise {α : Type} (f : Fault) : Expr Λ τ α
  /-- The value changed by a function. -/
  | map {α β : Type} (f : α → β) (p : Expr Λ τ α) : Expr Λ τ β
  /-- An expression chosen by the value of the one before it. -/
  | flatMap {α β : Type} (p : Expr Λ τ α) (f : α → Expr Λ τ β) : Expr Λ τ β
  /-- All of a finite family, in order. -/
  | sequence {α : Type} (n : Nat) (ps : Fin n → Expr Λ τ α) : Expr Λ τ (List α)
  /-- The first of a family that reads. -/
  | oneOf {α : Type} (p : Expr Λ τ α) (n : Nat) (ps : Fin n → Expr Λ τ α) : Expr Λ τ α
  /-- The value if it reads, and nothing otherwise. -/
  | optional {α : Type} (p : Expr Λ τ α) : Expr Λ τ (Option α)
  /-- As many as read, and `minimum` at least. -/
  | repeated {α : Type} (minimum : Nat) (p : Expr Λ τ α) : Expr Λ τ (List α)
  /-- As many as read, with a separator between them. -/
  | separated {α β : Type} (p : Expr Λ τ α) (separator : Expr Λ τ β) : Expr Λ τ (List α)
  /-- The rule of that name. -/
  | ref (r : ρ) : Expr Λ τ (τ r)
  /-- Nested no deeper than the guard at place `g` admits. -/
  | guarded {α : Type} (g : Nat) (p : Expr Λ τ α) : Expr Λ τ α

/-- The rules of a grammar, each under its name. -/
abbrev Rules (Λ : Type → Type) {ρ : Type} (τ : ρ → Type) := ∀ r : ρ, Expr Λ τ (τ r)

namespace Expr

variable {Λ : Type → Type} {ρ : Type} {τ : ρ → Type} {α β γ : Type}

/-! ## Derived forms -/

/-- One after the other, with both values. -/
def both (p : Expr Λ τ α) (q : Expr Λ τ β) : Expr Λ τ (α × β) :=
  .flatMap p fun a => .map (fun b => (a, b)) q

/-- One after the other, with their values combined. -/
def map2 (f : α → β → γ) (p : Expr Λ τ α) (q : Expr Λ τ β) : Expr Λ τ γ :=
  .map (fun ab => f ab.1 ab.2) (both p q)

/-- One after the other, with the value of the second. -/
def preceded (p : Expr Λ τ α) (q : Expr Λ τ β) : Expr Λ τ β := map2 (fun _ b => b) p q

/-- One after the other, with the value of the first. -/
def terminated (p : Expr Λ τ α) (q : Expr Λ τ β) : Expr Λ τ α := map2 (fun a _ => a) p q

/-- All of a list, in order. -/
def sequenceOf (ps : List (Expr Λ τ α)) : Expr Λ τ (List α) := .sequence ps.length ps.get

/-- All of a list, in order, with their values turned into one. -/
def chain (f : List α → β) (ps : List (Expr Λ τ α)) : Expr Λ τ β := .map f (sequenceOf ps)

/-- The first of `p` and of a list that reads. -/
def firstOf (p : Expr Λ τ α) (ps : List (Expr Λ τ α)) : Expr Λ τ α :=
  .oneOf p ps.length ps.get

/-- Any number. -/
def many (p : Expr Λ τ α) : Expr Λ τ (List α) := .repeated 0 p

/-- One or more. -/
def many1 (p : Expr Λ τ α) : Expr Λ τ (List α) := .repeated 1 p

/-- A value without reading, or a fault. -/
def ofExcept : Except Fault α → Expr Λ τ α
  | .ok a => .succeed a
  | .error f => .raise f

/-- The value changed by a function that may refuse it. -/
def mapExcept (f : α → Except Fault β) (p : Expr Λ τ α) : Expr Λ τ β :=
  .flatMap p fun a => ofExcept (f a)

/-! ## Other terminals -/

/-- The same expression over other terminals. -/
def mapTerminals {Λ' : Type → Type} (f : ∀ {α : Type}, Λ α → Λ' α) {α : Type} :
    Expr Λ τ α → Expr Λ' τ α
  | .terminal t => .terminal (f t)
  | .succeed a => .succeed a
  | .fail l => .fail l
  | .raise e => .raise e
  | .map g p => .map g (mapTerminals f p)
  | .flatMap p g => .flatMap (mapTerminals f p) fun a => mapTerminals f (g a)
  | .sequence n ps => .sequence n fun k => mapTerminals f (ps k)
  | .oneOf p n ps => .oneOf (mapTerminals f p) n fun k => mapTerminals f (ps k)
  | .optional p => .optional (mapTerminals f p)
  | .repeated m p => .repeated m (mapTerminals f p)
  | .separated p q => .separated (mapTerminals f p) (mapTerminals f q)
  | .ref r => .ref r
  | .guarded g p => .guarded g (mapTerminals f p)

end Expr
end Descent
