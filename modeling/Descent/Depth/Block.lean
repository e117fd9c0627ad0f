import Descent.Depth.Guard

/-!
# Sections under a guard

A block is a program whose only concern is a guard: it opens sections, one after the other
or one inside the other, it may raise an exception anywhere, and it may handle some of what
comes out of a part of it.  Running a block leaves every section that it entered, whichever
way the section ends; a section that is refused was not entered.
-/

namespace Descent
namespace Depth

/-- What comes out of a block that does not complete. -/
inductive Thrown where
  /-- An exception that the program raised. -/
  | exception (content : String)
  /-- The refusal of a section. -/
  | refusal (e : DepthGuard.LimitExceeded)
  deriving DecidableEq

/-- A tree of sections under one guard. -/
inductive Block where
  /-- Nothing. -/
  | done
  /-- Raise an exception, or raise again one that was caught. -/
  | raise (t : Thrown)
  /-- Open a section and do `body` in it. -/
  | enclose (body : Block)
  /-- One after the other. -/
  | andThen (first second : Block)
  /-- Do `body`, and handle what comes out of it if it is to be caught. -/
  | attempt (body : Block) (catches : Thrown → Bool) (handler : Thrown → Block)

/-- How a block ends. -/
inductive Ending where
  | completed
  | threw (t : Thrown)
  deriving DecidableEq

namespace Block

/-- Run a block under a guard: how it ends, and the guard afterwards. -/
def run : Block → DepthGuard → Ending × DepthGuard
  | .done, g => (.completed, g)
  | .raise t, g => (.threw t, g)
  | .enclose body, g =>
    match g.enter with
    | .error e => (.threw (.refusal e), g)
    | .ok inside =>
      let (ending, after) := body.run inside
      (ending, after.leave)
  | .andThen first second, g =>
    match first.run g with
    | (.completed, after) => second.run after
    | (.threw t, after) => (.threw t, after)
  | .attempt body catches handler, g =>
    match body.run g with
    | (.completed, after) => (.completed, after)
    | (.threw t, after) => if catches t then (handler t).run after else (.threw t, after)

/-- Sections one inside the other, with `body` in the innermost. -/
def nested : Nat → Block → Block
  | 0, body => body
  | n + 1, body => .enclose (nested n body)

variable {g : DepthGuard} {body : Block}

theorem run_enclose_of_le (h : g.maxDepth ≤ g.currentDepth) :
    (enclose body).run g = (.threw (.refusal ⟨g.maxDepth⟩), g) := by
  rw [run, DepthGuard.enter_of_le h]

theorem run_enclose_of_enter {inside : DepthGuard} (h : g.enter = .ok inside) :
    (enclose body).run g = ((body.run inside).1, (body.run inside).2.leave) := by
  rw [run, h]

/-- A block leaves its guard as it found it. -/
theorem run_snd (b : Block) (g : DepthGuard) : (b.run g).2 = g := by
  induction b generalizing g with
  | done => rfl
  | raise t => rfl
  | enclose body ih =>
    -- a section that is refused is not left, and one that is entered is left once
    cases h : g.enter with
    | error e => rw [run, h]
    | ok inside =>
      rw [run_enclose_of_enter h, ih inside]
      exact DepthGuard.leave_of_enter h
  | andThen first second ih₁ ih₂ =>
    have hfirst := ih₁ g
    rw [run]
    rcases h : first.run g with ⟨ending, after⟩
    rw [h] at hfirst
    cases ending with
    | completed => exact (ih₂ after).trans hfirst
    | threw t => exact hfirst
  | attempt body catches handler ih ihHandler =>
    have hbody := ih g
    rw [run]
    rcases h : body.run g with ⟨ending, after⟩
    rw [h] at hbody
    cases ending with
    | completed => exact hbody
    | threw t =>
      simp only
      split
      · exact (ihHandler t after).trans hbody
      · exact hbody

end Block
end Depth
end Descent
