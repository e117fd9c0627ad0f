import Descent.Depth.Clamp

/-!
# Depth guards

A guard counts how many entries into a section are active and refuses the one that would
exceed its limit.  Entering checks the limit before it counts: a refused entry leaves the
guard as it was, and must not be paired with a leave.
-/

namespace Descent

/-- A counter of active entries with a limit. -/
structure DepthGuard where
  maxDepth : Int
  currentDepth : Int := 0
  deriving DecidableEq

namespace DepthGuard

/-- An entry was refused because the guard stood at this limit. -/
structure LimitExceeded where
  maxDepth : Int
  deriving DecidableEq

/-- A guard with no active entry, its limit clamped at one frame per level. -/
def ofLimit (recursionLimit maxDepth : Int) : DepthGuard :=
  { maxDepth := Depth.clamp recursionLimit maxDepth Limits.reserveFrames 1 }

/-- What is recorded when a guard is made. -/
def ofLimitEvents (recursionLimit maxDepth : Int) : List Event :=
  Depth.clampEvents recursionLimit maxDepth Limits.reserveFrames 1

variable (g : DepthGuard)

/-- The next entry would be refused. -/
def isExceeded : Bool := g.maxDepth ≤ g.currentDepth

/-- Count one more active entry, unless the limit is reached. -/
def enter : Except LimitExceeded DepthGuard :=
  if g.isExceeded then .error ⟨g.maxDepth⟩
  else .ok { g with currentDepth := g.currentDepth + 1 }

/-- Count one active entry less. -/
def leave : DepthGuard := { g with currentDepth := g.currentDepth - 1 }

theorem isExceeded_iff : g.isExceeded = true ↔ g.maxDepth ≤ g.currentDepth := by
  simp [isExceeded]

theorem enter_of_lt {g : DepthGuard} (h : g.currentDepth < g.maxDepth) :
    g.enter = .ok { g with currentDepth := g.currentDepth + 1 } := by
  have : ¬ g.maxDepth ≤ g.currentDepth := by omega
  simp [enter, isExceeded, this]

theorem enter_of_le {g : DepthGuard} (h : g.maxDepth ≤ g.currentDepth) :
    g.enter = .error ⟨g.maxDepth⟩ := by
  simp [enter, isExceeded, h]

/-- A guard that is entered stood below its limit, and has one more entry inside. -/
theorem of_enter_eq_ok {g inside : DepthGuard} (h : g.enter = .ok inside) :
    g.currentDepth < g.maxDepth ∧
      inside = { g with currentDepth := g.currentDepth + 1 } := by
  rcases Int.lt_or_le g.currentDepth g.maxDepth with hlt | hle
  · rw [enter_of_lt hlt] at h
    exact ⟨hlt, (Except.ok.inj h).symm⟩
  · rw [enter_of_le hle] at h
    exact absurd h (by simp)

/-- Leaving undoes entering. -/
theorem leave_of_enter {g inside : DepthGuard} (h : g.enter = .ok inside) :
    inside.leave = g := by
  unfold enter at h
  split at h
  · cases h
  · cases h
    simp [leave]

/-- Open `n` entries, one inside the other, and read the depth inside the innermost; then
leave those that were opened. -/
def nest : Nat → DepthGuard → Except LimitExceeded Int × DepthGuard
  | 0, g => (.ok g.currentDepth, g)
  | n + 1, g =>
    match g.enter with
    | .error e => (.error e, g)
    | .ok inside =>
      let (depth, after) := nest n inside
      (depth, after.leave)

end DepthGuard
end Descent
