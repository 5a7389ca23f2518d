import Mathlib.Analysis.SpecialFunctions.Complex.Arg
import ManeuverRanking.Proofs.Plan.Anchor

/-!
Resampling over the real numbers. The arc lengths of the resampled points are those of a walk along
the plan: which of its steps go back, and where the walk leads if no plan point goes back.
-/

namespace ManeuverRanking

namespace Plan

variable {plan : Plan ℝ}

/-- A walk over a plan of forward speeds. A step goes back exactly if the point reached brakes by
more than twice its speed within the step, unless the walk is at the start of the plan, or still
behind the end after the step. -/
theorem walkFrom_goes_back_iff (some : plan.points ≠ [])
    (forward : ∀ point ∈ plan.points, 0 ≤ point.speed) (odometry : Odometry ℝ)
    (horizon : Horizon ℝ) :
    ∃ stops, plan.walkFrom odometry.pose horizon = .ok stops ∧
      plan.resample odometry horizon = .ok (timedFrom horizon.interval 0 stops) ∧
      stops.length = horizon.steps ∧
      (∀ stop ∈ stops, 0 ≤ stop.point.speed ∧
        planPointAt plan.points (planProgress plan.points) stop.arc = .ok stop.point) ∧
      ∀ step (next : step + 1 < stops.length),
        placeOn plan.points stops[step + 1].arc < placeOn plan.points stops[step].arc ↔
          2 * stops[step].point.speed < -stops[step].point.acceleration * horizon.interval ∧
            0 < placeOn plan.points stops[step].arc ∧
            stops[step + 1].arc < planLength plan.points := by
  obtain ⟨start, stops, -, walked, length, walks⟩ := exists_walkFrom some odometry.pose horizon
  refine ⟨stops, walked, resample_of_walkFrom walked, length, ?_, ?_⟩
  · intro stop member
    obtain ⟨index, share, lies, blends⟩ := walks.blends some stop member
    exact ⟨blends.speed_nonneg lies forward, walks.found stop member⟩
  · intro step next
    rw [walks.arc_succ step (Nat.lt_of_succ_lt next) next, placeOn_add_lt_iff,
      PlanPoint.advance_neg_iff _ horizon.interval_pos]

noncomputable def straight (length speed acceleration : ℝ) : Plan ℝ where
  stamp := 0
  points :=
    [⟨.level 0 0, speed, acceleration, 0, 0⟩, ⟨.level length 0, speed, acceleration, 0, 1⟩]

noncomputable def underway : Odometry ℝ :=
  ⟨0, .level 1 0, [1, 0, 0]⟩

noncomputable def twoSeconds : Horizon ℝ :=
  ⟨2, 1, Nat.two_pos, Real.zero_lt_one⟩

section Straight

variable {length speed acceleration : ℝ}

theorem straight_some : (straight length speed acceleration).points ≠ [] :=
  List.cons_ne_nil _ _

theorem straight_even : ∀ point ∈ (straight length speed acceleration).points,
    point.speed = speed ∧ point.acceleration = acceleration := by
  simp [straight]

theorem planLength_straight : planLength (straight 2 speed acceleration).points = 2 := by
  rw [planLength_eq straight_some]
  simp [straight, corners, sides, stepLengths, Segment.length_eq, Segment.lengthSquared,
    Pose.level, Pose.planarPosition, Vec2.sub, Vec2.dot]

theorem planArcOf_underway :
    planArcOf (straight 2 speed acceleration).points underway.pose = .ok 1 := by
  simp [planArcOf, straight, underway, projectToPolyline, nearestAlong, Nearest.replaces,
    Segment.nearest, Segment.reach_eq, Segment.foot, Segment.share, Segment.length_eq,
    Segment.lengthSquared, Pose.level, Pose.planarPosition, Vec2.sub, Vec2.dot]
  norm_num

theorem walkFrom_underway (speed acceleration : ℝ) : ∃ first second : Waypoint ℝ,
    (straight 2 speed acceleration).walkFrom underway.pose twoSeconds = .ok [first, second] ∧
      first.arc = 1 ∧ second.arc = 1 + (speed + acceleration / 2) := by
  obtain ⟨start, stops, projected, walked, length, walks⟩ :=
    exists_walkFrom (straight_some : (straight 2 speed acceleration).points ≠ []) underway.pose
      twoSeconds
  obtain rfl := Except.ok.inj (planArcOf_underway.symm.trans projected)
  obtain ⟨first, second, rfl⟩ := List.length_eq_two.mp length
  have before : first.arc = 1 := walks.arc_zero Nat.two_pos
  have step : second.arc = first.arc + first.point.advance twoSeconds.interval :=
    walks.arc_succ 0 Nat.two_pos Nat.one_lt_two
  obtain ⟨index, share, lies, blends⟩ := walks.blends straight_some first List.mem_cons_self
  obtain ⟨moves, accelerates⟩ := blends.even lies straight_even
  refine ⟨first, second, walked, before, ?_⟩
  rw [step, before, PlanPoint.advance_eq_add, moves, accelerates]
  simp only [twoSeconds]
  ring

end Straight

theorem braking_forward : ∀ point ∈ (straight 2 1 (-4)).points, 0 ≤ point.speed := by
  intro point inside
  rw [(straight_even point inside).1]
  exact zero_le_one

theorem braking_goes_back_iff : (straight 2 1 (-4)).points ≠ [] ∧
    (∀ point ∈ (straight 2 1 (-4)).points, 0 ≤ point.speed) ∧
    ∃ stops, (straight 2 1 (-4)).walkFrom underway.pose twoSeconds = .ok stops ∧
      stops.length = 2 ∧
      ∀ step (next : step + 1 < stops.length),
        placeOn (straight 2 1 (-4)).points stops[step + 1].arc <
            placeOn (straight 2 1 (-4)).points stops[step].arc ↔
          0 < placeOn (straight 2 1 (-4)).points stops[step].arc ∧ stops[step + 1].arc < 2 := by
  obtain ⟨stops, walked, -, length, found, back⟩ :=
    (straight 2 1 (-4)).walkFrom_goes_back_iff straight_some braking_forward underway twoSeconds
  refine ⟨straight_some, braking_forward, stops, walked, length, ?_⟩
  intro step next
  obtain ⟨index, share, lies, blends⟩ := blends_of_planPointAt straight_some
    (found _ (List.getElem_mem (Nat.lt_of_succ_lt next))).2
  obtain ⟨moves, brakes⟩ := blends.even lies straight_even
  rw [back step next, planLength_straight, moves, brakes]
  norm_num [twoSeconds]

/-- Half way along the plan the walk turns back to its start. -/
theorem braking_goes_back : (straight 2 1 (-4)).points ≠ [] ∧
    (∀ point ∈ (straight 2 1 (-4)).points, 0 ≤ point.speed) ∧
    ∃ first second,
      (straight 2 1 (-4)).walkFrom underway.pose twoSeconds = .ok [first, second] ∧
      placeOn (straight 2 1 (-4)).points first.arc = 1 ∧
      placeOn (straight 2 1 (-4)).points second.arc = 0 ∧
      ¬ placeOn (straight 2 1 (-4)).points first.arc ≤
        placeOn (straight 2 1 (-4)).points second.arc := by
  obtain ⟨first, second, walked, before, after⟩ := walkFrom_underway 1 (-4)
  have one : placeOn (straight 2 1 (-4)).points first.arc = 1 := by
    rw [placeOn_eq, planLength_straight, before]
    norm_num
  have zero : placeOn (straight 2 1 (-4)).points second.arc = 0 := by
    rw [placeOn_eq, planLength_straight, after]
    norm_num
  refine ⟨straight_some, braking_forward, first, second, walked, one, zero, ?_⟩
  rw [one, zero]
  norm_num

/-- A walk over a plan none of whose points goes back within a step. There is one point for each
step, at the plan point of its arc length and timed by the step. No arc length lies before an earlier
one, and from the end of the plan on all points are as its last one. At one speed throughout the
plan, the arc lengths are those of even motion up to the end. -/
theorem resample_of_advancing (some : plan.points ≠ []) {horizon : Horizon ℝ}
    (advancing : ∀ point ∈ plan.points, 0 ≤ point.advance horizon.interval)
    (odometry : Odometry ℝ) :
    ∃ start stops resampled, planArcOf plan.points odometry.pose = .ok start ∧
      plan.walkFrom odometry.pose horizon = .ok stops ∧
      plan.resample odometry horizon = .ok resampled ∧
      stops.length = horizon.steps ∧ resampled.length = horizon.steps ∧
      (∀ step (reached : step < stops.length) (inside : step < resampled.length), ∃ point,
        planPointAt plan.points (planProgress plan.points) stops[step].arc = .ok point ∧
          resampled[step] = { point with time := step * horizon.interval }) ∧
      (stops.Pairwise fun first second =>
        placeOn plan.points first.arc ≤ placeOn plan.points second.arc) ∧
      (∀ step later (reached : step < stops.length) (inside : later < resampled.length),
        step ≤ later → placeOn plan.points stops[step].arc = planLength plan.points →
          resampled[later].SameState (plan.points.getLast some)) ∧
      ∀ speed, (∀ point ∈ plan.points, point.speed = speed ∧ point.acceleration = 0) →
        ∀ step (inside : step < resampled.length), ∃ point,
          planPointAt plan.points (planProgress plan.points)
              (min (start + step * (speed * horizon.interval)) (planLength plan.points)) =
            .ok point ∧
          resampled[step] = { point with time := step * horizon.interval } := by
  obtain ⟨start, stops, projected, walked, length, walks⟩ :=
    exists_walkFrom some odometry.pose horizon
  have count : (timedFrom horizon.interval 0 stops).length = stops.length := length_timedFrom ..
  have timed (step : Nat) (reached : step < stops.length)
      (inside : step < (timedFrom horizon.interval 0 stops).length) :
      (timedFrom horizon.interval 0 stops)[step] =
        { stops[step].point with time := step * horizon.interval } := by
    rw [getElem_timedFrom 0 step reached inside, Nat.zero_add]
  refine ⟨start, stops, _, projected, walked, resample_of_walkFrom walked, length,
    count.trans length, ?_, walks.place_ascending some advancing, ?_, ?_⟩
  · intro step reached inside
    exact ⟨_, walks.found _ (List.getElem_mem reached), timed step reached inside⟩
  · intro step later reached inside before ended
    have reached' : later < stops.length := count ▸ inside
    rw [timed later reached' inside]
    exact (walks.sameState_of_ended some advancing reached reached' before ended).timed _
  · intro speed even step inside
    have reached : step < stops.length := count ▸ inside
    refine ⟨_, ?_, timed step reached inside⟩
    rw [← walks.found _ (List.getElem_mem reached), walks.arc_eq_of_even some even step reached]
    exact planPointAt_congr some (placeOn_min plan.points _)

theorem cruising_resample_of_advancing : (straight 2 1 0).points ≠ [] ∧
    (∀ point ∈ (straight 2 1 0).points, 0 ≤ point.advance twoSeconds.interval) ∧
    ∃ first second here there,
      (straight 2 1 0).walkFrom underway.pose twoSeconds = .ok [first, second] ∧
      (straight 2 1 0).resample underway twoSeconds = .ok [here, there] ∧
      placeOn (straight 2 1 0).points first.arc ≤ placeOn (straight 2 1 0).points second.arc ∧
      there.SameState ((straight 2 1 0).points.getLast straight_some) ∧
      ∀ step (inside : step < [here, there].length), ∃ point,
        planPointAt (straight 2 1 0).points (planProgress (straight 2 1 0).points)
            (min (1 + step * (1 * twoSeconds.interval)) 2) = .ok point ∧
          [here, there][step] = { point with time := step * twoSeconds.interval } := by
  have advancing : ∀ point ∈ (straight 2 1 0).points, 0 ≤ point.advance twoSeconds.interval := by
    intro point inside
    obtain ⟨moves, coasts⟩ := straight_even point inside
    rw [PlanPoint.advance_eq_add, moves, coasts]
    norm_num [twoSeconds]
  obtain ⟨start, stops, resampled, projected, walked, told, -, length, -, ascending, ended, evenly⟩ :=
    resample_of_advancing straight_some advancing underway
  obtain ⟨first, second, walked', -, after⟩ := walkFrom_underway 1 0
  obtain rfl := Except.ok.inj (planArcOf_underway.symm.trans projected)
  obtain rfl := Except.ok.inj (walked'.symm.trans walked)
  obtain ⟨here, there, rfl⟩ := List.length_eq_two.mp length
  have atEnd : placeOn (straight 2 1 0).points second.arc = planLength (straight 2 1 0).points := by
    rw [placeOn_eq, planLength_straight, after]
    norm_num
  have evenly := evenly 1 straight_even
  rw [planLength_straight] at evenly
  exact ⟨straight_some, advancing, first, second, here, there, walked', told,
    List.rel_of_pairwise_cons ascending List.mem_cons_self,
    ended 1 1 Nat.one_lt_two Nat.one_lt_two (Nat.le_refl 1) atEnd, evenly⟩

end Plan

end ManeuverRanking
