import Descent.Limits
import Descent.Log

/-!
# Clamping a requested depth

Depth is counted in nesting levels, and one level may cost several stack frames.  Of the
frames that the recursion limit allows, some stay reserved for the caller; what is left,
divided by the cost of one level and rounded down, is the ceiling of every depth.  A
requested depth above the ceiling is lowered to it, and that is the one occasion on which
a warning is recorded.

A cost below one frame per level counts as one, so the divisor is positive and the
division of integers rounds down for every dividend.
-/

namespace Descent
namespace Depth

/-- The greatest depth that fits under `limit` with `reserve` frames kept free and
`frames` frames to a level. -/
def ceiling (limit reserve frames : Int) : Int := (limit - reserve) / max frames 1

/-- The requested depth, lowered to the ceiling if it is above it. -/
def clamp (limit requested reserve frames : Int) : Int :=
  if ceiling limit reserve frames < requested then ceiling limit reserve frames
  else requested

/-- The warning that goes with clamping: one exactly when the depth is lowered. -/
def clampEvents (limit requested reserve frames : Int) : List Event :=
  if ceiling limit reserve frames < requested then
    [.depthClamped requested limit (ceiling limit reserve frames)]
  else []

theorem clamp_eq_min (limit requested reserve frames : Int) :
    clamp limit requested reserve frames
      = min requested (ceiling limit reserve frames) := by
  unfold clamp; split <;> omega

theorem clamp_le_requested (limit requested reserve frames : Int) :
    clamp limit requested reserve frames ≤ requested := by
  rw [clamp_eq_min]; omega

theorem clamp_le_ceiling (limit requested reserve frames : Int) :
    clamp limit requested reserve frames ≤ ceiling limit reserve frames := by
  rw [clamp_eq_min]; omega

/-- Clamping leaves a depth alone exactly when it lies under the ceiling. -/
theorem clamp_eq_requested_iff {limit requested reserve frames : Int} :
    clamp limit requested reserve frames = requested
      ↔ requested ≤ ceiling limit reserve frames := by
  rw [clamp_eq_min]; omega

end Depth
end Descent
