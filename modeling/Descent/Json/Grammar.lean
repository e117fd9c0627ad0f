import Descent.Json.Value
import Descent.Text.Primitive

/-!
# The grammar of JSON texts

    value   ::= string | number | object | array | "null" | "true" | "false"
    string  ::= '"' [^"]* '"'
    number  ::= "-"? [0-9]+ ("." [0-9]+)?
    object  ::= "{" ws (member ("," member)*)? ws "}"
    member  ::= ws string ws ":" ws value ws
    array   ::= "[" ws (element ("," element)*)? ws "]"
    element ::= ws value ws

The dialect is small: a string has no escapes and a number no exponent.  The alternatives
of a value are tried in the order string, number, object, array, null, truth value, and a
number is tried with a fraction before it is tried without.

Values nest, so the grammar has one rule that is referred to.  The expressions here take
the expression for a nested value as a parameter `inner`, and `Json.rules` closes the loop.
The rule is guarded, by the guard at a place that is a parameter as well: the level at
which a value may stand is bounded by the limit of that guard.
-/

namespace Descent
namespace Json

/-- The characters that count as blank in a JSON text. -/
def blanks : CharClass := .anyOf [' ', '\t', '\n', '\r']

theorem admits_blanks_iff {ch : Char} :
    blanks.admits ch = true ↔ ch = ' ' ∨ ch = '\t' ∨ ch = '\n' ∨ ch = '\r' := by
  simp [blanks]

namespace Grammar

variable {ρ : Type} {τ : ρ → Type} {α β γ : Type}

/-- Blanks, if there are any. -/
def blank : Expr Primitive τ (Option Text) := .optional (.run blanks)

/-- The second of three parts. -/
def between (p : Expr Primitive τ α) (q : Expr Primitive τ β) (r : Expr Primitive τ γ) :
    Expr Primitive τ β := .terminated (.preceded p q) r

/-- A part with blanks around it. -/
def spaced (p : Expr Primitive τ α) : Expr Primitive τ α := between blank p blank

/-! ## Values without parts -/

/-- The content of a string literal. -/
def stringLiteral : Expr Primitive τ Text :=
  between (.literal "\"") (.runOrEmpty (.noneOf ['"'])) (.literal "\"")

/-- A string. -/
def string : Expr Primitive τ Value :=
  .map (fun content => .string content.asString) stringLiteral

/-- A minus sign, if there is one. -/
def sign : Expr Primitive τ Text := .map (fun sign => sign.getD #[]) (.optional (.literal "-"))

/-- Digits. -/
def digits : Expr Primitive τ Text := .run (.between '0' '9')

/-- The number that the parts of a number make when they are joined to one text.  Digits that
were read from a cursor before the start of its text can be none at all. -/
def numberOf (parts : List Text) : Except Fault Value :=
  match Decimal.ofString? (Text.join parts).asString with
  | some d => .ok (.number d)
  | none => .error .notANumber

/-- A number without a fraction. -/
def integer : Expr Primitive τ Value := .mapExcept numberOf (.sequenceOf [sign, digits])

/-- A number with a fraction. -/
def fractional : Expr Primitive τ Value :=
  .mapExcept numberOf (.sequenceOf [sign, digits, .literal ".", digits])

/-- A number. -/
def number : Expr Primitive τ Value := .firstOf fractional [integer]

/-- Null. -/
def null : Expr Primitive τ Value := .map (fun _ => .null) (.literal "null")

/-- A truth value. -/
def bool : Expr Primitive τ Value :=
  .firstOf (.map (fun _ => .bool true) (.literal "true"))
    [.map (fun _ => .bool false) (.literal "false")]

/-! ## Values with parts -/

/-- What separates two parts. -/
def comma : Expr Primitive τ Text := spaced (.literal ",")

/-- Parts between two brackets, with blanks inside them. -/
def enclosed (opening closing : String) (p : Expr Primitive τ α) :
    Expr Primitive τ (List α) :=
  .preceded (.literal opening) (.preceded blank
    (.terminated (.separated p comma) (.preceded blank (.literal closing))))

variable (inner : Expr Primitive τ Value)

/-- A member of an object. -/
def member : Expr Primitive τ (String × Value) :=
  .both (.map Text.asString (spaced stringLiteral))
    (.preceded (.literal ":") (spaced inner))

/-- An object. -/
def object : Expr Primitive τ Value :=
  .map Value.ofPairs (enclosed "\x7b" "\x7d" (member inner))

/-- An array. -/
def array : Expr Primitive τ Value := .map Value.array (enclosed "[" "]" (spaced inner))

/-- A value, with `inner` for the values in it, guarded by the guard at place `g`. -/
def value (g : Nat) : Expr Primitive τ Value :=
  .guarded g (.firstOf string [number, object inner, array inner, null, bool])

/-- A value with blanks around it, and nothing else up to the end of the text. -/
def document (p : Expr Primitive τ Value) : Expr Primitive τ Value :=
  .terminated (.preceded blank p) (.both blank .eof)

end Grammar

/-- The one rule of the grammar: a value, guarded by the guard at place `g`. -/
def rules (g : Nat) : Rules Primitive (fun _ : Unit => Value) := fun _ =>
  Grammar.value (.ref ()) g

end Json
end Descent
