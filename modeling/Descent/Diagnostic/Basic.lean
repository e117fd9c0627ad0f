import Descent.Diagnostic.Span
import Descent.Number.Grouped

/-!
# Diagnostics

A diagnostic describes one problem: a code, a message, and if they are known the span it
concerns and a hint for mending it.  Every problem that this library reports has its
diagnostic made here, so each wording stands once.

Codes have a name and a number.  Numbers from 1000 on are problems of parsing, from 2000
on limits that were exceeded, and from 3000 on look-ups in a value.
-/

namespace Descent
namespace Diagnostic

/-- What kind of problem a diagnostic describes. -/
inductive Code where
  | parseFailed
  | maxDepthExceeded
  | sourceTooLarge
  | pathNotFound
  | pathThroughScalar
  deriving DecidableEq

namespace Code

/-- All codes, in the order of their numbers. -/
def all : List Code :=
  [.parseFailed, .maxDepthExceeded, .sourceTooLarge, .pathNotFound, .pathThroughScalar]

/-- The name of a code. -/
def name : Code → String
  | .parseFailed => "PARSE_FAILED"
  | .maxDepthExceeded => "MAX_DEPTH_EXCEEDED"
  | .sourceTooLarge => "SOURCE_TOO_LARGE"
  | .pathNotFound => "PATH_NOT_FOUND"
  | .pathThroughScalar => "PATH_THROUGH_SCALAR"

/-- The number of a code. -/
def number : Code → Nat
  | .parseFailed => 1001
  | .maxDepthExceeded => 2001
  | .sourceTooLarge => 2002
  | .pathNotFound => 3001
  | .pathThroughScalar => 3002

/-- The code of a name. -/
def ofName? (s : String) : Option Code := all.find? fun c => c.name == s

end Code
end Diagnostic

/-- A problem, described for a reader. -/
structure Diagnostic where
  code : Diagnostic.Code
  message : String
  span : Option Span := none
  hint : Option String := none
  deriving DecidableEq

namespace Diagnostic

/-- The diagnostic over several lines: code and message, then the position and the hint if
there are any.  An empty hint counts as none. -/
def format (d : Diagnostic) : String :=
  let head := "error[" ++ d.code.name ++ "]: " ++ d.message
  let position := match d.span with
    | some s => "\n  --> line " ++ toString s.line ++ ", column " ++ toString s.column
    | none => ""
  let help := match d.hint with
    | some h => if h.isEmpty then "" else "\n  = help: " ++ h
    | none => ""
  head ++ position ++ help

/-! ## The problems of this library -/

/-- The parser at the top did not accept its input. -/
def parseFailed (rendered : String) (span : Option Span := none) : Diagnostic :=
  { code := .parseFailed, message := rendered, span := span
    hint := some "Check the input near the marked character" }

/-- A guard was entered beyond its limit. -/
def depthExceeded (maxDepth : Int) : Diagnostic :=
  { code := .maxDepthExceeded
    message := "Maximum nesting depth (" ++ toString maxDepth ++ ") exceeded"
    hint := some "Reduce nesting or raise max_nesting_depth" }

/-- A source text is larger than its limit. -/
def sourceTooLarge (size maxSize : Int) : Diagnostic :=
  { code := .sourceTooLarge
    message := "Source size (" ++ Grouped.ofInt size ++ " characters) exceeds maximum ("
      ++ Grouped.ofInt maxSize ++ " characters)"
    hint := some
      "Configure max_source_size in the JsonParser constructor to increase limit" }

/-- A segment of a path names nothing in its container. -/
def pathNotFound (segment kind : String) : Diagnostic :=
  { code := .pathNotFound
    message := "'" ++ segment ++ "' not found in " ++ kind }

/-- A segment of a path is left over at a value without parts. -/
def pathThroughScalar (segment kind : String) : Diagnostic :=
  { code := .pathThroughScalar
    message := "Cannot look up '" ++ segment ++ "' on " ++ kind }

end Diagnostic
end Descent
