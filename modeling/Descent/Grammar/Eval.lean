import Descent.Grammar.Basic
import Descent.Parser.Choice
import Descent.Parser.Guarded
import Descent.Parser.Repetition
import Descent.Parser.Sequence

/-!
# What a grammar does to an input

An expression becomes a parser by recursion on it: each form becomes the combinator of
that name, and each terminal is read as its type of terminals says.  A reference becomes
a call of the rule it names.

Calls of rules are the one place where reading may go on without end, since a rule may
call itself before it has read anything.  So calls are counted: `Rules.call rules n r`
is rule `r` with at most `n` calls active at one time, and a call beyond that halts
unfinished.  More calls never change an answer that was reached with fewer.
-/

namespace Descent

/-- How the terminals `Λ` are read from inputs `ι`.  Reading a terminal counts no entry of a
guard; it may record events. -/
class Terminal (Λ : Type → Type) (ι : Type) where
  /-- Read one terminal: what is recorded, and the outcome or a fault. -/
  read {α : Type} : Λ α → ι → List Event × Except Fault (Outcome ι α)

variable {Λ : Type → Type} {ρ : Type} {τ : ρ → Type} {ι : Type}
variable [DecidableEq ι] [Extent ι] [Terminal Λ ι] [Headroom]

/-- The parser of an expression, with `call` for the rules it refers to. -/
def Expr.eval (call : ∀ r : ρ, Parser ι (τ r)) {α : Type} : Expr Λ τ α → Parser ι α
  | .terminal t => fun i => Run.recorded (Terminal.read t i)
  | .succeed a => Parser.succeed a
  | .fail l => Parser.fail l
  | .raise f => Parser.raise f
  | .map f p => Parser.map f (eval call p)
  | .flatMap p f => Parser.flatMap (eval call p) fun a => eval call (f a)
  | .sequence _ ps => Parser.sequence (List.ofFn fun k => eval call (ps k))
  | .oneOf p _ ps => Parser.oneOf (eval call p) (List.ofFn fun k => eval call (ps k))
  | .optional p => Parser.optional (eval call p)
  | .repeated m p => Parser.repeated m (eval call p)
  | .separated p q => Parser.separated (eval call p) (eval call q)
  | .ref r => call r
  | .guarded g p => Parser.guarded g (eval call p)

/-- The rule of a name, with at most `n` calls active at one time. -/
def Rules.call (rules : Rules Λ τ) : Nat → ∀ r : ρ, Parser ι (τ r)
  | 0, _ => fun _ => Run.unfinished
  | n + 1, r => (rules r).eval (call rules n)

/-- Read an expression over the rules of a grammar, with at most `calls` calls of rules
active at one time. -/
def Rules.parse (rules : Rules Λ τ) {α : Type} (e : Expr Λ τ α)
    (calls : Nat := Limits.recursionLimit) : Parser ι α :=
  e.eval (rules.call calls)

/-- The grammar without rules, for expressions that refer to none. -/
def noRules : Rules Λ (fun _ : Empty => Unit) := nofun

@[simp] theorem Rules.call_zero (rules : Rules Λ τ) (r : ρ) (i : ι) (s : RunState) :
    rules.call 0 r i s = .error .unfinished s := rfl

theorem Rules.call_succ (rules : Rules Λ τ) (n : Nat) (r : ρ) :
    rules.call (n + 1) r = (rules r).eval (rules.call (ι := ι) n) := rfl

end Descent
