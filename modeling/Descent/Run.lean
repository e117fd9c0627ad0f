import Descent.Depth.Guard
import Descent.Fault
import Descent.Outcome

/-!
# Running a parser

A parser is a function from an input to a computation that ends in an outcome.  The
computation can do two things beside that: it counts entries in a table of depth guards,
and it records events.  The table and the record survive a halt, so a guard that was
entered can be left however the section inside it ended.

A halt is either a fault or the note that the steps granted to a computation ran out.
The second is no behaviour of a grammar: it marks a bound that was chosen too small, and
the bounds of this library are chosen so that it does not arise.

A guard is named by its place in the table.  A place outside the table stands for a guard
that is closed for good, so reading the table needs no side condition.
-/

namespace Descent

/-- Why a computation ended without an outcome. -/
inductive Halt where
  | fault (f : Fault)
  /-- The steps granted to the computation ran out. -/
  | unfinished
  deriving DecidableEq

/-- What a computation reads and changes: the depth guards and the record of events. -/
structure RunState where
  guards : Array DepthGuard := #[]
  log : Array Event := #[]

namespace RunState

/-- The guard at a place; outside the table it is a guard that admits no entry. -/
def guardAt (s : RunState) (i : Nat) : DepthGuard := s.guards.getD i { maxDepth := 0 }

/-- Put a guard at a place of the table. -/
def setGuard (s : RunState) (i : Nat) (g : DepthGuard) : RunState :=
  { s with guards := s.guards.setIfInBounds i g }

/-- Record an event. -/
def record (s : RunState) (e : Event) : RunState := { s with log := s.log.push e }

/-- Record several events. -/
def recordAll (s : RunState) (es : List Event) : RunState :=
  { s with log := s.log ++ es.toArray }

/-- Add a guard for a rule whose nesting levels cost `frames` frames each.  Its limit is
clamped at that cost, and the place of the new guard is returned. -/
def addGuard (s : RunState) (recursionLimit maxDepth frames : Int) : Nat × RunState :=
  let limit := Depth.clamp recursionLimit maxDepth Limits.reserveFrames frames
  let events := Depth.clampEvents recursionLimit maxDepth Limits.reserveFrames frames
    ++ DepthGuard.ofLimitEvents recursionLimit limit
  (s.guards.size,
    { s.recordAll events with
      guards := s.guards.push (DepthGuard.ofLimit recursionLimit limit) })

@[simp] theorem recordAll_nil (s : RunState) : s.recordAll [] = s := by
  simp [recordAll]

theorem recordAll_singleton (s : RunState) (e : Event) : s.recordAll [e] = s.record e := by
  simp [recordAll, record]

theorem recordAll_recordAll (s : RunState) (es es' : List Event) :
    (s.recordAll es).recordAll es' = s.recordAll (es ++ es') := by
  simp [recordAll]

@[simp] theorem guards_record (s : RunState) (e : Event) :
    (s.record e).guards = s.guards := rfl

@[simp] theorem guards_recordAll (s : RunState) (es : List Event) :
    (s.recordAll es).guards = s.guards := rfl

@[simp] theorem guardAt_record (s : RunState) (e : Event) (i : Nat) :
    (s.record e).guardAt i = s.guardAt i := rfl

theorem guardAt_of_lt {s : RunState} {i : Nat} (h : i < s.guards.size) :
    s.guardAt i = s.guards[i] := by
  simp [guardAt, h]

theorem guardAt_of_le {s : RunState} {i : Nat} (h : s.guards.size ≤ i) :
    s.guardAt i = { maxDepth := 0 } := by
  simp [guardAt, h]

/-- Putting back the guard that is there changes nothing. -/
@[simp] theorem setGuard_guardAt (s : RunState) (i : Nat) :
    s.setGuard i (s.guardAt i) = s := by
  rcases Nat.lt_or_ge i s.guards.size with h | h
  · simp [setGuard, guardAt_of_lt h, Array.setIfInBounds, h]
  · simp [setGuard, Array.setIfInBounds, Nat.not_lt.mpr h]

@[simp] theorem setGuard_setGuard (s : RunState) (i : Nat) (g g' : DepthGuard) :
    (s.setGuard i g).setGuard i g' = s.setGuard i g' := by
  rcases Nat.lt_or_ge i s.guards.size with h | h
  · simp [setGuard, Array.setIfInBounds, h]
  · simp [setGuard, Array.setIfInBounds, Nat.not_lt.mpr h]

theorem guardAt_setGuard_self {s : RunState} {i : Nat} (h : i < s.guards.size)
    (g : DepthGuard) : (s.setGuard i g).guardAt i = g := by
  simp [setGuard, guardAt, h]

theorem guardAt_setGuard_of_ne (s : RunState) {i j : Nat} (h : i ≠ j) (g : DepthGuard) :
    (s.setGuard i g).guardAt j = s.guardAt j := by
  simp [setGuard, guardAt, h]

end RunState

/-- How much of the stack is left for recording an event under a guard: the reason with which
the stack runs out, or `none` if there is room.  That depends on how deep a run stands, which
it knows by its guards, and on what surrounds it, which it does not know; so this is a
parameter of everything that runs inside a guard. -/
class Headroom where
  overflow : Array DepthGuard → Event → Option String

/-- There is always room.  This is what runs under, where nothing else is said. -/
instance Headroom.ample : Headroom where
  overflow _ _ := none

/-- A computation with guards and a record, which may halt. -/
abbrev Run := EStateM Halt RunState

namespace Run

variable {α : Type}

/-- End a computation with a fault. -/
def fault (f : Fault) : Run α := throw (.fault f)

/-- End a computation whose granted steps ran out. -/
def unfinished : Run α := throw .unfinished

/-- The value of a checked step, or its fault. -/
def ofExcept : Except Fault α → Run α
  | .ok a => pure a
  | .error f => fault f

/-- A checked step that records events, whether it ends with a value or with a fault. -/
def recorded (step : List Event × Except Fault α) : Run α := fun s =>
  ofExcept step.2 (s.recordAll step.1)

@[simp] theorem fault_apply (f : Fault) (s : RunState) :
    (fault f : Run α) s = .error (.fault f) s := rfl

@[simp] theorem unfinished_apply (s : RunState) :
    (unfinished : Run α) s = .error .unfinished s := rfl

@[simp] theorem ofExcept_ok (a : α) (s : RunState) : ofExcept (.ok a) s = .ok a s := rfl

@[simp] theorem ofExcept_error (f : Fault) (s : RunState) :
    (ofExcept (.error f) : Run α) s = .error (.fault f) s := rfl

theorem recorded_apply (step : List Event × Except Fault α) (s : RunState) :
    recorded step s = ofExcept step.2 (s.recordAll step.1) := rfl

/-- A step that records nothing is a checked step. -/
@[simp] theorem recorded_nil (r : Except Fault α) : recorded ([], r) = ofExcept r := by
  funext s
  rw [recorded_apply, RunState.recordAll_nil]

/-- Leave the guard at place `i`. -/
def leave (i : Nat) (s : RunState) : RunState := s.setGuard i (s.guardAt i).leave

/-- Run `body`, and leave the guard at place `i` however it ends. -/
def leaving (i : Nat) (body : Run α) : Run α := fun s =>
  match body s with
  | .ok a s' => .ok a (leave i s')
  | .error h s' => .error h (leave i s')

variable {i : Nat} {e : Event} {a refused : α} {body : Run α} {s s' : RunState} {reason : String}

section Headroom

variable [Headroom]

/-- Record why something is not read, and answer `refused`.  This takes room on the stack too,
and without it the stack runs out here. -/
def refuse (e : Event) (refused : α) : Run α := fun s =>
  match Headroom.overflow s.guards e with
  | none => .ok refused (s.record e)
  | some reason => .error (.fault (.stackExhausted reason)) s

/-- Run `body`.  A stack that runs out in it is recorded with the depth that the guard at
place `i` has reached, and `refused` is the answer. -/
def recovering (i : Nat) (refused : α) (body : Run α) : Run α := fun s =>
  match body s with
  | .error (.fault (.stackExhausted _)) s' =>
      refuse (.stackExhausted (s'.guardAt i).currentDepth) refused s'
  | ended => ended

/-- Run `body` inside the guard at place `i`.  If the guard refuses the entry, nothing is
run and `refused` is the answer.  Otherwise the guard counts one more entry while `body`
runs and while a stack that ran out in it is recorded, and one less however this ends. -/
def within (i : Nat) (refused : α) (body : Run α) : Run α := fun s =>
  match (s.guardAt i).enter with
  | .error e => refuse (.limitReached e.maxDepth) refused s
  | .ok inside => leaving i (recovering i refused body) (s.setGuard i inside)

theorem within_of_enter_error {e : DepthGuard.LimitExceeded}
    (h : (s.guardAt i).enter = .error e) (refused : α) (body : Run α) :
    within i refused body s = refuse (.limitReached e.maxDepth) refused s := by
  rw [within, h]

theorem within_of_enter {inside : DepthGuard} (h : (s.guardAt i).enter = .ok inside)
    (refused : α) (body : Run α) :
    within i refused body s = leaving i (recovering i refused body) (s.setGuard i inside) := by
  rw [within, h]

end Headroom

/-- With room on the stack, what is refused is answered. -/
@[simp] theorem refuse_ample (e : Event) (refused : α) (s : RunState) :
    refuse e refused s = .ok refused (s.record e) := rfl

/-- With room on the stack, a guarded section passes on how its body ends, except for a stack
that runs out. -/
theorem within_ample (i : Nat) (refused : α) (body : Run α) (s : RunState) :
    within i refused body s =
      match (s.guardAt i).enter with
      | .error e => .ok refused (s.record (.limitReached e.maxDepth))
      | .ok inside =>
        match body (s.setGuard i inside) with
        | .ok a s' => .ok a (leave i s')
        | .error (.fault (.stackExhausted _)) s' =>
            .ok refused (leave i (s'.record (.stackExhausted (s'.guardAt i).currentDepth)))
        | .error h s' => .error h (leave i s') := by
  cases he : (s.guardAt i).enter with
  | error e => rw [within_of_enter_error he, refuse_ample]
  | ok inside =>
    rw [within_of_enter he, leaving, recovering]
    simp only
    rcases body (s.setGuard i inside) with ⟨a, s'⟩ | ⟨h, s'⟩
    · rfl
    · cases h with
      | unfinished => rfl
      | fault f => cases f <;> rfl

end Run
end Descent
