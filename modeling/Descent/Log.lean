/-!
# What a parse leaves in the log

An event records something that happened beside the answer: a requested depth that was
lowered, a guard that refused an entry, a stack that ran out under a guard, a failure
that reached the caller, a document that was read.  Events carry what happened; the
level and the wording are functions of the event, so each is stated in one place.
-/

namespace Descent

/-- How serious an event is. -/
inductive Level where
  | debug
  | warning
  deriving DecidableEq

/-- Something a parse records beside its answer. -/
inductive Event where
  /-- A requested depth was above what the recursion limit allows and was lowered. -/
  | depthClamped (requested limit clamped : Int)
  /-- A guarded rule was refused because its guard stood at its limit. -/
  | limitReached (maxDepth : Int)
  /-- The stack ran out inside a guarded rule at this nesting depth. -/
  | stackExhausted (depth : Int)
  /-- A failure reached the caller and was rendered for the report. -/
  | parseFailed (location : Int) (rendered : String)
  /-- A whole document of this many characters was read. -/
  | documentParsed (size : Nat)
  deriving DecidableEq

namespace Event

/-- Only a lowered depth is a warning. -/
def level : Event → Level
  | .depthClamped .. => .warning
  | _ => .debug

/-- The text written for an event. -/
def message : Event → String
  | .depthClamped requested limit clamped =>
      "Requested depth " ++ toString requested ++ " exceeds Python recursion limit ("
        ++ toString limit ++ "). Clamping to " ++ toString clamped
        ++ " to prevent RecursionError."
  | .limitReached maxDepth => "Nesting depth limit (" ++ toString maxDepth ++ ") reached"
  | .stackExhausted depth => "Stack exhausted at nesting depth " ++ toString depth
  | .parseFailed location rendered =>
      "Parse failed at location " ++ toString location ++ ": " ++ rendered
  | .documentParsed size => "Parsed JSON document (" ++ toString size ++ " characters)"

end Event
end Descent
