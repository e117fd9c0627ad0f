import Descent.Json.Grammar
import Descent.Text.Parse

/-!
# Reading JSON documents

A document parser reads whole texts within two limits: a size in characters and a nesting
level.  A size limit of zero or below stands for none.  The nesting limit is clamped
against the recursion limit when the parser is made, so the limit that a document parser
carries is the one it enforces.

A text that is too large is refused before it is read.  Otherwise the text is read with a
guard of the nesting limit; one call more than the levels that the guard admits is all
that reading can ever have active.
-/

namespace Descent
namespace Json

/-- The limits within which documents are read. -/
structure DocumentParser where
  maxSourceSize : Int := Limits.maxSourceSize
  maxNestingDepth : Int := Limits.maxDepth

/-- Why a text is not read as a document. -/
inductive DocumentError where
  /-- The text is larger than the limit allows. -/
  | sourceTooLarge (size : Nat) (maxSize : Int)
  /-- The text is not a document. -/
  | parseFailed (error : ParseFailed Cursor)

namespace DocumentParser

/-- The document parser for requested limits; those that are not given have their default.
The nesting limit is clamped against the recursion limit. -/
def ofLimits (maxSourceSize maxNestingDepth : Option Int)
    (recursionLimit : Int := Limits.recursionLimit) : DocumentParser where
  maxSourceSize := maxSourceSize.getD Limits.maxSourceSize
  maxNestingDepth := Depth.clamp recursionLimit (maxNestingDepth.getD Limits.maxDepth)
    Limits.reserveFrames Limits.framesPerLevel

/-- What is recorded when requested limits are clamped. -/
def ofLimitsEvents (maxNestingDepth : Option Int)
    (recursionLimit : Int := Limits.recursionLimit) : List Event :=
  Depth.clampEvents recursionLimit (maxNestingDepth.getD Limits.maxDepth)
    Limits.reserveFrames Limits.framesPerLevel

variable (p : DocumentParser)

/-- The state in which reading begins: the guard of the nesting limit, with no entry. -/
def start (recursionLimit : Int := Limits.recursionLimit) : RunState :=
  (RunState.addGuard {} recursionLimit p.maxNestingDepth Limits.framesPerLevel).2

/-- The size limit is exceeded. -/
def isTooLarge (source : Text) : Bool :=
  0 < p.maxSourceSize && p.maxSourceSize < source.size

/-- Read a text that is a value with blanks around it. -/
def readDocument (source : Text) : Run (Except (ParseFailed Cursor) Value) :=
  Text.parse
    ((rules 0).parse (Grammar.document (Grammar.value (.ref ()) 0))
      (p.maxNestingDepth.toNat + 1))
    { source := source }

/-- Read a text as a document. -/
def parse (source : Text) : Run (Except DocumentError Value) := do
  if p.isTooLarge source then
    pure (.error (.sourceTooLarge source.size p.maxSourceSize))
  else
    match ← p.readDocument source with
    | .error e => pure (.error (.parseFailed e))
    | .ok v =>
      modify fun s => s.record (.documentParsed source.size)
      pure (.ok v)

end DocumentParser

namespace DocumentError

/-- The diagnostic of a refusal. -/
def diagnostic? : DocumentError → Option Diagnostic
  | .sourceTooLarge size maxSize => some (.sourceTooLarge size maxSize)
  | .parseFailed error => error.report.diagnostic

/-- The fault that a refusal is where the value is needed to go on. -/
def fault : DocumentError → Fault
  | .sourceTooLarge size maxSize =>
      .rejected (Diagnostic.sourceTooLarge size maxSize).message
  | .parseFailed error => .parseFailed error

end DocumentError

/-- Read a text with the default limits. -/
def parse (source : Text) : Run (Except DocumentError Value) :=
  DocumentParser.parse (.ofLimits none none) source

end Json
end Descent
