import Descent.Json.Document
import Mathlib.Order.Bounds.Defs

/-!
# The depth that fits

The ceiling of a depth is a quotient that is rounded down, and it is best known by what lies
under it: a depth is under the ceiling exactly if its frames and the reserved ones fit under
the recursion limit (`Depth.le_ceiling_iff`).  With that, a clamped depth is the greatest one
that is no more than was requested and that fits (`Depth.clamp_isGreatest`), and clamping it
again changes nothing and records nothing.

The nesting limit of a document parser is clamped three times: when the parser is made, when
the rule for values is guarded, both times at the cost of a guarded rule, and when the guard
itself is made, at one frame to a level.  A level that is cheaper leaves room for more of
them, provided that the reserved frames fit under the recursion limit at all; so the last two
never lower what the first has left (`DocumentParser.nestingLimit_kept`).
-/

namespace Descent

namespace Event

/-- How many of the events are warnings. -/
def warnings (events : List Event) : Nat := events.countP fun e => e.level = .warning

end Event

theorem RunState.log_addGuard (s : RunState) (recursionLimit maxDepth frames : Int) :
    (s.addGuard recursionLimit maxDepth frames).2.log.toList = s.log.toList
      ++ (Depth.clampEvents recursionLimit maxDepth Limits.reserveFrames frames
        ++ DepthGuard.ofLimitEvents recursionLimit
          (Depth.clamp recursionLimit maxDepth Limits.reserveFrames frames)) := by
  simp [addGuard, recordAll]

namespace Depth

variable {limit requested reserve frames r : Int}

/-! ## One clamping -/

/-- A depth lies under the ceiling if its frames fit beside those that are reserved. -/
theorem le_ceiling_iff :
    r ≤ ceiling limit reserve frames ↔ r * max frames 1 + reserve ≤ limit := by
  have hpos : 0 < max frames 1 := by omega
  rw [ceiling, Int.le_ediv_iff_mul_le hpos]
  omega

theorem clamp_isGreatest (limit requested reserve frames : Int) :
    IsGreatest {r | r ≤ requested ∧ r * max frames 1 + reserve ≤ limit}
      (clamp limit requested reserve frames) := by
  constructor
  · exact ⟨clamp_le_requested .., le_ceiling_iff.mp (clamp_le_ceiling ..)⟩
  · rintro r ⟨hr, hfits⟩
    rw [clamp_eq_min]
    exact Int.le_min.mpr ⟨hr, le_ceiling_iff.mpr hfits⟩

/-- A depth that fits is left alone, and nothing is recorded. -/
theorem clamp_of_fits (h : r * max frames 1 + reserve ≤ limit) :
    clamp limit r reserve frames = r ∧ clampEvents limit r reserve frames = [] := by
  have hle := le_ceiling_iff.mpr h
  exact ⟨clamp_eq_requested_iff.mpr hle, if_neg (Int.not_lt.mpr hle)⟩

/-- A warning goes with a depth that is lowered, and only with such a one. -/
theorem warnings_clampEvents (limit requested reserve frames : Int) :
    Event.warnings (clampEvents limit requested reserve frames)
      = if clamp limit requested reserve frames < requested then 1 else 0 := by
  rw [clamp_eq_min]
  by_cases h : ceiling limit reserve frames < requested
  · rw [clampEvents, if_pos h, if_pos (by omega)]
    rfl
  · rw [clampEvents, if_neg h, if_neg (by omega)]
    rfl

/-! ## Another clamping at a lower cost -/

/-- What fits at a cost fits at a lower one, if the reserved frames fit at all. -/
theorem fits_of_le {frames' : Int} (hreserve : reserve ≤ limit)
    (hcost : max frames' 1 ≤ max frames 1) (h : r * max frames 1 + reserve ≤ limit) :
    r * max frames' 1 + reserve ≤ limit := by
  rcases Int.le_total 0 r with hr | hr
  · have := Int.mul_le_mul_of_nonneg_left hcost hr
    omega
  · -- a level below zero only gives frames back
    have := Int.mul_nonpos_of_nonpos_of_nonneg hr (show 0 ≤ max frames' 1 by omega)
    omega

end Depth

namespace Json
namespace DocumentParser

/-- **The nesting limit that is reported is the one that is enforced.**  Clamping yields the
greatest depth that is no more than was requested and that fits under the recursion limit; it
warns exactly if that is less than what was requested, and of the clamped depth it does not
warn again.  So a document parser, under a recursion limit that leaves room for the reserved
frames, carries a nesting limit that neither guarding the rule for values nor making its guard
lowers: documents are read under one guard with exactly this limit, and of all that is
recorded on the way there one warning at most. -/
theorem nestingLimit_kept :
    (∀ limit requested reserve frames : Int,
      let r := Depth.clamp limit requested reserve frames
      IsGreatest {r | r ≤ requested ∧ r * max frames 1 + reserve ≤ limit} r ∧
      Event.warnings (Depth.clampEvents limit requested reserve frames)
        = (if r < requested then 1 else 0) ∧
      Depth.clamp limit r reserve frames = r ∧
      Depth.clampEvents limit r reserve frames = []) ∧
    ∀ (maxSourceSize maxNestingDepth : Option Int) (limit : Int),
      Limits.reserveFrames ≤ limit →
      let p := ofLimits maxSourceSize maxNestingDepth limit
      let guarded := Depth.clamp limit p.maxNestingDepth Limits.reserveFrames
        Limits.framesPerLevel
      guarded = p.maxNestingDepth ∧
      (DepthGuard.ofLimit limit guarded).maxDepth = p.maxNestingDepth ∧
      (p.start limit).guards = #[{ maxDepth := p.maxNestingDepth }] ∧
      Event.warnings (ofLimitsEvents maxNestingDepth limit ++ (p.start limit).log.toList)
        ≤ 1 := by
  have hclamp : ∀ limit requested reserve frames : Int,
      Depth.clamp limit requested reserve frames * max frames 1 + reserve ≤ limit :=
    fun limit requested reserve frames =>
      (Depth.clamp_isGreatest limit requested reserve frames).1.2
  constructor
  · intro limit requested reserve frames r
    exact ⟨Depth.clamp_isGreatest .., Depth.warnings_clampEvents ..,
      Depth.clamp_of_fits (hclamp ..)⟩
  · intro maxSourceSize maxNestingDepth limit hreserve p guarded
    have hfits := hclamp limit (maxNestingDepth.getD Limits.maxDepth) Limits.reserveFrames
      Limits.framesPerLevel
    obtain ⟨hguarded, hevents⟩ : guarded = p.maxNestingDepth ∧ _ := Depth.clamp_of_fits hfits
    obtain ⟨hguard, hevents'⟩ := Depth.clamp_of_fits
      (Depth.fits_of_le hreserve (show max (1 : Int) 1 ≤ _ by decide) hfits)
    have hlimit : (DepthGuard.ofLimit limit guarded).maxDepth = p.maxNestingDepth := by
      rw [hguarded]
      exact hguard
    have hlog : (p.start limit).log.toList = [] := by
      rw [start, RunState.log_addGuard, hevents]
      show DepthGuard.ofLimitEvents limit guarded = []
      rw [hguarded]
      exact hevents'
    refine ⟨hguarded, hlimit, ?_, ?_⟩
    · show #[DepthGuard.ofLimit limit guarded] = _
      rw [← hlimit]
      rfl
    · rw [hlog, List.append_nil, ofLimitsEvents, Depth.warnings_clampEvents]
      split <;> decide

/-- Of 500 levels that are requested 95 fit under a recursion limit of 1000. -/
theorem fiveHundred_nestingLimit_kept :
    Limits.reserveFrames ≤ 1000 ∧ (ofLimits none (some 500) 1000).maxNestingDepth = 95 ∧
      ((ofLimits none (some 500) 1000).start 1000).guards = #[{ maxDepth := 95 }] ∧
      Event.warnings (ofLimitsEvents (some 500) 1000
        ++ ((ofLimits none (some 500) 1000).start 1000).log.toList) ≤ 1 := by
  have hreserve : Limits.reserveFrames ≤ 1000 := by decide
  obtain ⟨-, -, hguards, hwarnings⟩ := nestingLimit_kept.2 none (some 500) 1000 hreserve
  exact ⟨hreserve, by decide, hguards, hwarnings⟩

end DocumentParser
end Json
end Descent
