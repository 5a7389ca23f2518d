import Mathlib.Analysis.SpecialFunctions.Complex.Arg
import ManeuverRanking.Proofs.Geometry.Chord
import ManeuverRanking.Proofs.Metric.Series
import ManeuverRanking.Proofs.Path.Straight
import ManeuverRanking.Proofs.Plan.Resampling

/-!
Distances along a plan over the real numbers. Points of a plan are never further apart than the way
between them along the plan, and exactly so far where the plan is straight. So a walk that does not go
back travels at most the arc length that it walks, and on a straight plan all of it.
-/

namespace ManeuverRanking

theorem Vec2.ahead_ahead (start direction : Vec2 ℝ) (first second : ℝ) :
    (start.ahead direction first).ahead direction second = start.ahead direction (first + second) := by
  simp only [ahead, Vec2.mk.injEq]
  constructor <;> ring

def AlongLine (direction : Vec2 ℝ) (points : List (Vec2 ℝ)) : Prop :=
  points.IsChain fun start stop => ∃ way, 0 ≤ way ∧ stop = start.ahead direction way

section Line

variable {direction origin : Vec2 ℝ} {rest : List (Vec2 ℝ)}

theorem AlongLine.exists_places {start : ℝ}
    (line : AlongLine direction (origin.ahead direction start :: rest)) :
    ∃ places, (start :: places).IsChain (· ≤ ·) ∧ rest = places.map (origin.ahead direction) := by
  induction rest generalizing start with
  | nil => exact ⟨[], .singleton _, rfl⟩
  | cons next rest ih =>
      obtain ⟨⟨way, forward, rfl⟩, later⟩ := List.isChain_cons_cons.mp line
      rw [Vec2.ahead_ahead] at later ⊢
      obtain ⟨places, ascending, rfl⟩ := ih later
      exact ⟨(start + way) :: places, .cons_cons (le_add_of_nonneg_right forward) ascending, rfl⟩

theorem Passes.norm_sub_eq_of_line {points : List (Vec2 ℝ)} {place place' : ℝ} {spot spot' : Vec2 ℝ}
    (unit : direction.dot direction = 1) (line : AlongLine direction points)
    (passes : Passes 0 points place spot) (passes' : Passes 0 points place' spot')
    (ordered : place ≤ place') : (spot'.sub spot).norm = place' - place := by
  cases points with
  | nil => cases passes
  | cons first rest =>
      rw [← Vec2.ahead_zero first direction] at line passes passes'
      obtain ⟨places, ascending, rfl⟩ := line.exists_places
      rw [← List.map_cons] at passes passes'
      rw [ReferencePath.eq_ahead_of_passes unit ascending.pairwise passes,
        ReferencePath.eq_ahead_of_passes unit ascending.pairwise passes', norm_sub_ahead unit,
        abs_of_nonneg (sub_nonneg.mpr ordered)]

end Line

section Points

variable {points : List (PlanPoint ℝ)} {first second : ℝ} {here there : PlanPoint ℝ}

def SharesSegment (points : List (PlanPoint ℝ)) (place place' : ℝ) : Prop :=
  ∃ index, ∃ next : index + 1 < (planProgress points).length,
    (planProgress points)[index] ≤ place ∧ place' ≤ (planProgress points)[index + 1]

def StraightPlan (points : List (PlanPoint ℝ)) : Prop :=
  ∃ direction : Vec2 ℝ, direction.dot direction = 1 ∧ AlongLine direction (corners points)

noncomputable def planarDistance (here there : PlanPoint ℝ) : ℝ :=
  (there.pose.planarPosition.sub here.pose.planarPosition).norm

theorem planarDistance_self (here : PlanPoint ℝ) : planarDistance here here = 0 :=
  Vec2.norm_sub_self _

theorem placeOn_sub_le (ordered : first ≤ second) :
    placeOn points second - placeOn points first ≤ second - first := by
  have forward := sub_nonneg.mpr ordered
  have raised : max second 0 ≤ second - first + max first 0 :=
    max_le (by linarith [le_max_left first 0]) (add_nonneg forward (le_max_right _ _))
  rw [placeOn_eq, placeOn_eq, sub_le_iff_le_add, ← min_add_add_left]
  exact min_le_min raised (le_add_of_nonneg_left forward)

theorem passes_of_planPointAt (two : 2 ≤ points.length)
    (found : planPointAt points (planProgress points) first = .ok here) :
    Passes 0 (corners points) (placeOn points first) here.pose.planarPosition := by
  have some : points ≠ [] := List.ne_nil_of_length_pos (by omega)
  obtain ⟨index, share, lies, blends⟩ := blends_of_planPointAt some found
  exact passes_of_liesAt two lies blends

theorem single_of_planPointAt {point : PlanPoint ℝ}
    (found : planPointAt [point] (planProgress [point]) first = .ok here) :
    here = point ∧ placeOn [point] first = 0 := by
  refine ⟨(Except.ok.inj found).symm, ?_⟩
  have none : planLength [point] = 0 := rfl
  exact le_antisymm ((placeOn_le ..).trans none.le) (placeOn_nonneg ..)

variable (found : planPointAt points (planProgress points) first = .ok here)
  (found' : planPointAt points (planProgress points) second = .ok there)

include found found'

theorem planarDistance_of_short (short : points.length < 2) :
    planarDistance here there = placeOn points second - placeOn points first := by
  match points, short with
  | [], _ => cases found
  | [point], _ =>
      obtain ⟨rfl, start⟩ := single_of_planPointAt found
      obtain ⟨rfl, stop⟩ := single_of_planPointAt found'
      rw [planarDistance_self, start, stop, sub_self]

variable (ordered : placeOn points first ≤ placeOn points second)

include ordered

theorem planarDistance_le : planarDistance here there ≤
    placeOn points second - placeOn points first := by
  by_cases short : points.length < 2
  · exact (planarDistance_of_short found found' short).le
  · have two := Nat.le_of_not_lt short
    exact (passes_of_planPointAt two found).norm_sub_le (passes_of_planPointAt two found') ordered

theorem planarDistance_eq_of_sharesSegment
    (shares : SharesSegment points (placeOn points first) (placeOn points second)) :
    planarDistance here there = placeOn points second - placeOn points first := by
  by_cases short : points.length < 2
  · exact planarDistance_of_short found found' short
  · have two := Nat.le_of_not_lt short
    have some : points ≠ [] := List.ne_nil_of_length_pos (by omega)
    obtain ⟨index, next, low, high⟩ := shares
    simp only [planProgress_eq some] at next low high
    exact (passes_of_planPointAt two found).norm_sub_eq (passes_of_planPointAt two found') ordered
      next low high

theorem planarDistance_eq_of_straight (straight : StraightPlan points) :
    planarDistance here there = placeOn points second - placeOn points first := by
  by_cases short : points.length < 2
  · exact planarDistance_of_short found found' short
  · have two := Nat.le_of_not_lt short
    obtain ⟨direction, unit, line⟩ := straight
    exact (passes_of_planPointAt two found).norm_sub_eq_of_line unit line
      (passes_of_planPointAt two found') ordered

end Points

section Stops

variable {points : List (PlanPoint ℝ)} {stops : List (Waypoint ℝ)}

theorem corners_timedFrom (interval : ℝ) (step : Nat) (stops : List (Waypoint ℝ)) :
    corners (timedFrom interval step stops) =
      stops.map fun stop => stop.point.pose.planarPosition := by
  induction stops generalizing step with
  | nil => rfl
  | cons stop rest ih => exact congrArg (_ :: ·) (ih (step + 1))

theorem planProgress_of_walk (interval : ℝ) {count : Nat}
    (found : ∀ stop ∈ stops,
      planPointAt points (planProgress points) stop.arc = .ok stop.point)
    (ascending : stops.Pairwise fun before after =>
      placeOn points before.arc ≤ placeOn points after.arc)
    (step : Nat) (reached : step < stops.length)
    (inside : step < (planProgress ((timedFrom interval 0 stops).take count)).length) :
    (planProgress ((timedFrom interval 0 stops).take count))[step] ≤
        placeOn points stops[step].arc - placeOn points stops[0].arc ∧
      (StraightPlan points →
        (planProgress ((timedFrom interval 0 stops).take count))[step] =
          placeOn points stops[step].arc - placeOn points stops[0].arc) := by
  have travelled : (timedFrom interval 0 stops).take count ≠ [] := by
    rw [← List.length_pos_iff, ← length_planProgress]
    exact Nat.zero_lt_of_lt inside
  have kept : corners ((timedFrom interval 0 stops).take count) =
      (stops.take count).map fun stop => stop.point.pose.planarPosition := by
    rw [corners, List.map_take, ← corners, corners_timedFrom, List.map_take]
  have reached' : step < (stops.take count).length := by
    rw [length_planProgress, List.length_take, length_timedFrom] at inside
    rwa [List.length_take]
  have near : stops.IsChain fun before after =>
      planarDistance before.point after.point ≤
        placeOn points after.arc - placeOn points before.arc :=
    (ascending.imp_of_mem fun before after ordered =>
      planarDistance_le (found _ before) (found _ after) ordered).isChain
  simp only [planProgress_eq travelled, kept] at inside ⊢
  have below := runningTotals_sides_le (near.take count) 0 step reached' inside
  simp only [List.getElem_take, zero_add] at below
  refine ⟨below, fun straight => le_antisymm below ?_⟩
  -- The first and the last of these points are already so far apart.
  have apart := planarDistance_eq_of_straight (found _ (List.getElem_mem (Nat.zero_lt_of_lt reached)))
    (found _ (List.getElem_mem reached)) (ascending.rel_get_of_le (Nat.zero_le step)) straight
  have above := add_norm_sub_le 0 step (by rwa [List.length_map]) inside
  simp only [List.getElem_map, List.getElem_take, zero_add] at above
  exact apart.symm.trans_le above

end Stops

namespace Plan

variable {plan : Plan ℝ}

/-- Points at two arc lengths of a plan are at most as far apart as the way between them, clipped to
the plan, and exactly so far within one segment. What is reported as travelled on a plan resampled by a
walk that does not go back is at most the arc length walked, and all of it where the plan is straight. -/
theorem travelDistance_le_walked (some : plan.points ≠ []) :
    (∀ first second : ℝ, first ≤ second → ∃ here there,
      planPointAt plan.points (planProgress plan.points) first = .ok here ∧
      planPointAt plan.points (planProgress plan.points) second = .ok there ∧
      planarDistance here there ≤ placeOn plan.points second - placeOn plan.points first ∧
      (SharesSegment plan.points (placeOn plan.points first) (placeOn plan.points second) →
        planarDistance here there = placeOn plan.points second - placeOn plan.points first)) ∧
    ∀ (odometry : Odometry ℝ) (horizon : Horizon ℝ), ∃ start stops resampled,
      planArcOf plan.points odometry.pose = .ok start ∧
      plan.walkFrom odometry.pose horizon = .ok stops ∧
      plan.resample odometry horizon = .ok resampled ∧ stops.length = horizon.steps ∧
      ((stops.Pairwise fun before after =>
          placeOn plan.points before.arc ≤ placeOn plan.points after.arc) →
        ∀ (extractor : Extractor ℝ) (candidate : Candidate ℝ),
          candidate.motion = .planned resampled →
          (∀ history ∈ candidate.lengths, extractor.horizon.steps ≤ history.2) →
          extractor.Computes candidate →
          Yields (extractor.extract candidate) fun series =>
            series.travelDistance.length = extractor.horizon.steps ∧
            ∀ step (inside : step < series.travelDistance.length),
              ∃ reached : step < stops.length,
                series.travelDistance[step] ≤
                  placeOn plan.points stops[step].arc - placeOn plan.points start ∧
                (start ≤ stops[step].arc →
                  series.travelDistance[step] ≤ stops[step].arc - start) ∧
                (StraightPlan plan.points → series.travelDistance[step] =
                  placeOn plan.points stops[step].arc - placeOn plan.points start)) := by
  constructor
  · intro first second ordered
    obtain ⟨here, found, -⟩ := completes_planPointAt some first
    obtain ⟨there, found', -⟩ := completes_planPointAt some second
    have ordered' := placeOn_mono plan.points ordered
    exact ⟨here, there, found, found', planarDistance_le found found' ordered',
      planarDistance_eq_of_sharesSegment found found' ordered'⟩
  · intro odometry horizon
    obtain ⟨start, stops, projected, walked, length, walks⟩ :=
      exists_walkFrom some odometry.pose horizon
    refine ⟨start, stops, _, projected, walked, resample_of_walkFrom walked, length, ?_⟩
    intro ascending extractor candidate own reaches computes
    obtain ⟨series, done, spans⟩ :=
      ensures_false_iff.mp (Extractor.ensures_extract reaches computes)
    refine ⟨series, done, spans.distance, fun step inside => ?_⟩
    obtain ⟨-, -, travelled⟩ := Extractor.planned_of_extract own done
    have progress : series.travelDistance =
        planProgress ((timedFrom horizon.interval 0 stops).take extractor.horizon.steps) :=
      travelled
    have reached : step < stops.length := by
      rw [progress, length_planProgress, List.length_take, length_timedFrom] at inside
      omega
    have told := planProgress_of_walk horizon.interval walks.found ascending step reached
      (progress ▸ inside)
    rw [walks.arc_zero (Nat.zero_lt_of_lt reached)] at told
    simp only [progress]
    exact ⟨reached, told.1, fun ahead => told.1.trans (placeOn_sub_le ahead), told.2⟩

theorem straightPlan_straight {speed acceleration : ℝ} :
    StraightPlan (straight 2 speed acceleration).points := by
  refine ⟨⟨1, 0⟩, ?_, .cons_cons ⟨2, ?_, ?_⟩ (.singleton _)⟩ <;>
    simp [Vec2.dot, Vec2.ahead, Pose.planarPosition, Pose.level]

noncomputable def overTwoSeconds : Extractor ℝ :=
  ⟨Extractor.standardWheelBase, twoSeconds⟩

def alone (resampled : List (PlanPoint ℝ)) : Candidate ℝ :=
  ⟨.current, .planned resampled, [⟨0, []⟩, ⟨nanosecondsPerSecond, []⟩], 0⟩

theorem computes_alone (resampled : List (PlanPoint ℝ)) :
    overTwoSeconds.Computes (alone resampled) := by
  intro pair paired
  have empty : pair.2.objects = [] := by
    have around := List.mem_of_mem_take (List.of_mem_zip paired).2
    rcases List.mem_pair.mp around with same | same <;> rw [same]
  exact .of_yields (completes_collisionAt _ rfl (by rw [empty]; nofun))

theorem cruising_travelDistance : (straight 2 1 0).points ≠ [] ∧
    ∃ resampled, (straight 2 1 0).resample underway twoSeconds = .ok resampled ∧
      Yields (overTwoSeconds.extract (alone resampled)) fun series =>
        series.travelDistance = [0, 1] := by
  obtain ⟨-, travels⟩ := travelDistance_le_walked (@straight_some 2 1 0)
  obtain ⟨start, stops, resampled, projected, walked, told, -, travels⟩ :=
    travels underway twoSeconds
  obtain ⟨first, second, walked', before, after⟩ := walkFrom_underway 1 0
  obtain rfl := Except.ok.inj (planArcOf_underway.symm.trans projected)
  obtain rfl := Except.ok.inj (walked'.symm.trans walked)
  have length : resampled.length = 2 := by
    rw [← Except.ok.inj ((resample_of_walkFrom walked').symm.trans told), length_timedFrom]
    rfl
  have ascending : [first, second].Pairwise fun before after =>
      placeOn (straight 2 1 0).points before.arc ≤ placeOn (straight 2 1 0).points after.arc := by
    rw [List.pairwise_pair]
    exact placeOn_mono _ (by rw [before, after]; norm_num)
  have reaches : ∀ history ∈ (alone resampled).lengths, 2 ≤ history.2 := by
    simp [Candidate.lengths, Motion.lengths, alone, length]
  refine ⟨straight_some, resampled, told, ?_⟩
  refine (travels ascending overTwoSeconds (alone resampled) rfl reaches
    (computes_alone resampled)).mono ?_
  rintro series ⟨count, travelled⟩
  generalize series.travelDistance = distance at count travelled ⊢
  obtain ⟨early, late, rfl⟩ := List.length_eq_two.mp count
  obtain ⟨_, -, -, here⟩ := travelled 0 Nat.two_pos
  obtain ⟨_, -, -, there⟩ := travelled 1 Nat.one_lt_two
  have here : early = placeOn (straight 2 1 0).points first.arc -
    placeOn (straight 2 1 0).points 1 := here straightPlan_straight
  have there : late = placeOn (straight 2 1 0).points second.arc -
    placeOn (straight 2 1 0).points 1 := there straightPlan_straight
  rw [here, there, placeOn_eq, placeOn_eq, placeOn_eq, planLength_straight, before, after]
  norm_num

end Plan

end ManeuverRanking
