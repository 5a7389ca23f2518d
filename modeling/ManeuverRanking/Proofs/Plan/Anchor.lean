import Mathlib.Analysis.SpecialFunctions.Complex.Arg
import ManeuverRanking.Proofs.Geometry.Nearest
import ManeuverRanking.Proofs.Plan.Advance

/-!
Projection and interpolation over the real numbers measure the same way along a plan. The plan point
at the arc length of a pose is one nearest to it, and it is where resampling starts.
-/

namespace ManeuverRanking

theorem blend_one (values : List ℝ) (index : Nat) :
    blend values index 1 = blend values (index + 1) 0 := by
  simp [blend]

theorem passes_blend {corners : List (Vec2 ℝ)} {index : Nat} (next : index + 1 < corners.length)
    {share : ℝ} (forward : 0 ≤ share) (short : share ≤ 1) (arc : ℝ) :
    Passes arc corners (blend (arc :: runningTotals arc (sides corners)) index share)
      ⟨blend (corners.map Vec2.x) index share, blend (corners.map Vec2.y) index share⟩ := by
  induction corners generalizing arc index with
  | nil => exact absurd next (Nat.not_lt_zero _)
  | cons start rest ih =>
      cases rest with
      | nil => exact absurd next (by simp)
      | cons stop rest =>
          cases index with
          | zero =>
              have passes : Passes arc (start :: stop :: rest)
                  (arc + share * (Segment.mk start stop).length) (start.toward stop share) :=
                .between forward short
              convert passes using 1
              · simp [blend, sides, stepLengths, runningTotals]
              · simp [blend, Vec2.toward]
          | succ index =>
              exact .later (ih (Nat.lt_of_succ_lt_succ next) (arc + (Segment.mk start stop).length))

section Plan

variable {points : List (PlanPoint ℝ)} {arc share : ℝ} {index : Nat}

noncomputable def corners (points : List (PlanPoint ℝ)) : List (Vec2 ℝ) :=
  points.map fun point => point.pose.planarPosition

theorem planProgress_eq (some : points ≠ []) :
    planProgress points = 0 :: runningTotals 0 (sides (corners points)) := by
  have step (start stop : PlanPoint ℝ) :
      (stop.pose.position.sub start.pose.position).planarNorm =
        (Segment.mk start.pose.planarPosition stop.pose.planarPosition).length := by
    simp only [Vec3.planarNorm, Vec3.sub, Segment.length, Vec2.norm, Vec2.dot, Vec2.sub,
      Pose.planarPosition]
    congr 1
    ring
  obtain ⟨first, rest, rfl⟩ := List.exists_cons_of_ne_nil some
  change 0 :: runningTotals 0 (stepLengths _ ((first :: rest).map PlanPoint.pose)) = _
  rw [sides, corners, stepLengths_map fun _ _ => rfl, stepLengths_map fun _ _ => rfl]
  simp only [Bool.false_eq_true, if_false, step]

theorem planLength_eq (some : points ≠ []) : planLength points = (sides (corners points)).sum := by
  rw [planLength, planProgress_eq some, getLastD_runningTotals, zero_add]

theorem passes_of_liesAt (two : 2 ≤ points.length)
    (lies : LiesAt (planProgress points) (placeOn points arc) index share)
    {point : PlanPoint ℝ} (blends : point.Blends points index share) :
    Passes 0 (corners points) (placeOn points arc) point.pose.planarPosition := by
  have some : points ≠ [] := by
    rintro rfl
    exact absurd two (by decide)
  have inside := lies.inside
  have told := lies.told
  rw [length_planProgress] at inside
  rw [planProgress_eq some] at told
  have spot : point.pose.planarPosition =
      ⟨blend ((corners points).map Vec2.x) index share,
        blend ((corners points).map Vec2.y) index share⟩ := by
    rw [corners, List.map_map, List.map_map]
    exact congr (congrArg Vec2.mk blends.x) blends.y
  rw [spot, ← told]
  have length : (corners points).length = points.length := List.length_map _
  by_cases next : index + 1 < points.length
  · exact passes_blend (length ▸ next) lies.forward lies.short.le 0
  · -- The last point is the end of the segment before it.
    have none := lies.atEnd (by rw [length_planProgress]; omega)
    obtain ⟨before, rfl⟩ : ∃ before, index = before + 1 := ⟨index - 1, by omega⟩
    rw [none, ← blend_one, ← blend_one, ← blend_one]
    exact passes_blend (length ▸ inside) zero_le_one (le_refl 1) 0

theorem exists_nearest (some : points ≠ []) (pose : Pose ℝ) :
    ∃ place point, planArcOf points pose = .ok place ∧
      planPointAt points (planProgress points) place = .ok point ∧
      OnPolyline (corners points) point.pose.planarPosition ∧
      ∀ spot, OnPolyline (corners points) spot →
        (pose.planarPosition.sub point.pose.planarPosition).norm ≤
          (pose.planarPosition.sub spot).norm := by
  by_cases several : points.length < 2
  · obtain ⟨point, rfl⟩ := List.length_eq_one_iff.mp
      (Nat.le_antisymm (Nat.le_of_lt_succ several) (List.length_pos_iff.mpr some))
    refine ⟨0, point, if_pos several, rfl, .corner, ?_⟩
    intro spot on
    rw [onPolyline_singleton_iff.mp on]
  · have two : 2 ≤ points.length := Nat.le_of_not_lt several
    obtain ⟨place, projected, -⟩ := completes_planArcOf points pose
    have projected' := projected
    rw [planArcOf, if_neg several] at projected'
    obtain ⟨spot, passes, least⟩ := nearest_of_projectToPolyline projected'
    have inside : placeOn points place = place := by
      have upper := passes.le_end
      rw [zero_add] at upper
      rw [placeOn_eq, planLength_eq some, max_eq_left passes.start_le]
      exact min_eq_left upper
    obtain ⟨index, share, lies⟩ := exists_liesAt_placeOn some place
    obtain ⟨point, found, blends⟩ := yields_planPointAt some lies
    have passes' := passes_of_liesAt two lies blends
    rw [inside] at passes'
    -- Two spots that a polyline passes at one arc length are the same.
    obtain rfl := passes.unique passes'
    exact ⟨place, point, projected, found, passes.onPolyline, least⟩

/-- Projected onto a plan and interpolated there, a pose gives a nearest spot of the polyline through
the plan points. Resampling starts at it. -/
theorem planPointAt_planArcOf_nearest (some : points ≠ []) (pose : Pose ℝ) :
    ∃ place point, planArcOf points pose = .ok place ∧
      planPointAt points (planProgress points) place = .ok point ∧
      OnPolyline (corners points) point.pose.planarPosition ∧
      (∀ spot, OnPolyline (corners points) spot →
        (pose.planarPosition.sub point.pose.planarPosition).norm ≤
          (pose.planarPosition.sub spot).norm) ∧
      ∀ (plan : Plan ℝ) (odometry : Odometry ℝ) (horizon : Horizon ℝ), plan.points = points →
        odometry.pose = pose → ∃ first rest,
          plan.resample odometry horizon = .ok (first :: rest) ∧ first.pose = point.pose := by
  obtain ⟨place, point, projected, found, on, least⟩ := exists_nearest some pose
  refine ⟨place, point, projected, found, on, least, ?_⟩
  rintro plan odometry horizon rfl rfl
  obtain ⟨start, stops, projected', walked, length, walks⟩ :=
    exists_walkFrom some odometry.pose horizon
  obtain rfl := Except.ok.inj (projected.symm.trans projected')
  cases walks with
  | ends => exact absurd length horizon.steps_pos.ne
  | goes found' _ =>
      obtain rfl := Except.ok.inj (found.symm.trans found')
      exact ⟨_, _, resample_of_walkFrom walked, rfl⟩

noncomputable def Pose.level (x y : ℝ) : Pose ℝ :=
  ⟨⟨x, y, 0⟩, .identity⟩

noncomputable def bend (side : ℝ) : List (PlanPoint ℝ) :=
  [⟨.level 0 0, 1, 0, 0, 0⟩, ⟨.level side 0, 0, 0, 0, side⟩, ⟨.level side 0, 0, 0, 0, side + 1⟩,
    ⟨.level side side, 1, 0, 0, side + side + 1⟩]

theorem bend_nearest : bend 2 ≠ [] ∧
    ∃ place point, planArcOf (bend 2) (.level 3 1) = .ok place ∧
      planPointAt (bend 2) (planProgress (bend 2)) place = .ok point ∧
      OnPolyline (corners (bend 2)) point.pose.planarPosition ∧
      ((Pose.level 3 1).planarPosition.sub point.pose.planarPosition).norm ≤ 1 ∧
      ∀ (plan : Plan ℝ) (odometry : Odometry ℝ) (horizon : Horizon ℝ), plan.points = bend 2 →
        odometry.pose = .level 3 1 → ∃ first rest,
          plan.resample odometry horizon = .ok (first :: rest) ∧ first.pose = point.pose := by
  have some : bend 2 ≠ [] := List.cons_ne_nil _ _
  obtain ⟨place, point, projected, found, on, least, starts⟩ :=
    planPointAt_planArcOf_nearest some (.level 3 1)
  have beside : OnPolyline (corners (bend 2)) (Vec2.toward ⟨2, 0⟩ ⟨2, 2⟩ (1 / 2)) :=
    .later (.later (.between (by norm_num) (by norm_num)))
  have away : ((Pose.level 3 1).planarPosition.sub
      (Vec2.toward ⟨2, 0⟩ ⟨2, 2⟩ (1 / 2))).norm = 1 := by
    norm_num [Pose.level, Pose.planarPosition, Vec2.sub, Vec2.toward, Vec2.norm, Vec2.dot]
    exact Real.sqrt_one
  exact ⟨some, place, point, projected, found, on, (least _ beside).trans away.le, starts⟩

end Plan

end ManeuverRanking
