import Mathlib.Analysis.SpecialFunctions.Complex.Arg
import ManeuverRanking.Proofs.Plan.Interpolation

/-!
The walk along a plan over the real numbers. Each step moves on by the advance of the point reached,
which blends the advances of the plan points around it. So a walk goes back only where the plan
brakes to more than a stop within a step, and never if no plan point does so.
-/

namespace ManeuverRanking

section Walk

variable {points : List (PlanPoint ℝ)} {interval arc : ℝ} {stops : List (Waypoint ℝ)}

inductive Walks (points : List (PlanPoint ℝ)) (interval : ℝ) : ℝ → List (Waypoint ℝ) → Prop
  | ends {arc : ℝ} : Walks points interval arc []
  | goes {arc : ℝ} {point : PlanPoint ℝ} {later : List (Waypoint ℝ)} :
      planPointAt points (planProgress points) arc = .ok point →
      Walks points interval (arc + point.advance interval) later →
      Walks points interval arc (⟨arc, point⟩ :: later)

theorem walks_of_walk {steps : Nat}
    (done : walk points (planProgress points) interval arc steps = .ok stops) :
    Walks points interval arc stops := by
  induction steps generalizing arc stops with
  | zero =>
      obtain rfl := Except.ok.inj done
      exact .ends
  | succ steps ih =>
      simp only [walk, bind_eq_ok_iff] at done
      obtain ⟨point, found, later, walked, told⟩ := done
      obtain rfl := Except.ok.inj told
      exact .goes found (ih walked)

namespace Walks

theorem found (walks : Walks points interval arc stops) :
    ∀ stop ∈ stops, planPointAt points (planProgress points) stop.arc = .ok stop.point := by
  induction walks with
  | ends => nofun
  | goes found _ ih =>
      intro stop member
      rcases List.mem_cons.mp member with rfl | inside
      · exact found
      · exact ih stop inside

theorem arc_zero (walks : Walks points interval arc stops) (some : 0 < stops.length) :
    stops[0].arc = arc := by
  cases walks with
  | ends => exact absurd some (Nat.lt_irrefl 0)
  | goes _ _ => rfl

theorem arc_succ (walks : Walks points interval arc stops) (step : Nat)
    (reached : step < stops.length) (next : step + 1 < stops.length) :
    stops[step + 1].arc = stops[step].arc + stops[step].point.advance interval := by
  induction walks generalizing step with
  | ends => exact absurd next (Nat.not_lt_zero _)
  | goes found later ih =>
      cases step with
      | zero => exact later.arc_zero (Nat.lt_of_succ_lt_succ next)
      | succ step => exact ih step (Nat.lt_of_succ_lt_succ reached) (Nat.lt_of_succ_lt_succ next)

theorem arc_ascending (walks : Walks points interval arc stops)
    (advancing : ∀ stop ∈ stops, 0 ≤ stop.point.advance interval) :
    stops.Pairwise fun first second => first.arc ≤ second.arc := by
  suffices ahead : (stops.Pairwise fun first second => first.arc ≤ second.arc) ∧
      ∀ stop ∈ stops, arc ≤ stop.arc from ahead.1
  induction walks with
  | ends => exact ⟨.nil, nofun⟩
  | goes _ _ ih =>
      obtain ⟨sorted, above⟩ := ih fun stop inside => advancing stop (List.mem_cons_of_mem _ inside)
      have step := advancing _ List.mem_cons_self
      dsimp only at step
      refine ⟨.cons (fun stop inside => ?_) sorted, fun stop member => ?_⟩
      · have later := above stop inside
        dsimp only
        linarith
      · rcases List.mem_cons.mp member with rfl | inside
        · exact le_refl _
        · have later := above stop inside
          linarith

theorem arc_eq (walks : Walks points interval arc stops) {way : ℝ}
    (even : ∀ stop ∈ stops, stop.point.advance interval = way) (step : Nat)
    (inside : step < stops.length) : stops[step].arc = arc + step * way := by
  induction step with
  | zero =>
      rw [walks.arc_zero inside, Nat.cast_zero]
      ring
  | succ step ih =>
      have before := Nat.lt_of_succ_lt inside
      rw [walks.arc_succ step before inside, ih before, even _ (List.getElem_mem _), Nat.cast_succ]
      ring

end Walks

theorem exists_walkFrom {plan : Plan ℝ} (some : plan.points ≠ []) (pose : Pose ℝ)
    (horizon : Horizon ℝ) :
    ∃ start stops, planArcOf plan.points pose = .ok start ∧
      plan.walkFrom pose horizon = .ok stops ∧ stops.length = horizon.steps ∧
      Walks plan.points horizon.interval start stops := by
  obtain ⟨start, projected, -⟩ := completes_planArcOf plan.points pose
  obtain ⟨stops, walked, length⟩ := yields_walk some horizon.interval start horizon.steps
  refine ⟨start, stops, projected, ?_, length, walks_of_walk walked⟩
  unfold Plan.walkFrom
  split
  · contradiction
  · exact (bind_eq_ok_iff _ _ _).mpr ⟨start, projected, walked⟩

theorem resample_of_walkFrom {plan : Plan ℝ} {odometry : Odometry ℝ} {horizon : Horizon ℝ}
    (walked : plan.walkFrom odometry.pose horizon = .ok stops) :
    plan.resample odometry horizon = .ok (timedFrom horizon.interval 0 stops) :=
  (bind_eq_ok_iff _ _ _).mpr ⟨stops, walked, rfl⟩

theorem getElem_timedFrom (first step : Nat) (inside : step < stops.length)
    (inside' : step < (timedFrom interval first stops).length) :
    (timedFrom interval first stops)[step] =
      { stops[step].point with time := ((first + step : Nat) : ℝ) * interval } := by
  induction stops generalizing first step with
  | nil => exact absurd inside (Nat.not_lt_zero _)
  | cons stop rest ih =>
      cases step with
      | zero => rfl
      | succ step =>
          have shifted : first + (step + 1) = first + 1 + step := by omega
          rw [shifted]
          exact ih (first + 1) step (Nat.lt_of_succ_lt_succ inside) _

end Walk

theorem PlanPoint.advance_eq_add (point : PlanPoint ℝ) (interval : ℝ) :
    point.advance interval =
      point.speed * interval + point.acceleration * (interval * interval / 2) := by
  unfold advance
  rw [Exact.half_eq]
  ring

theorem PlanPoint.advance_neg_iff (point : PlanPoint ℝ) {interval : ℝ} (positive : 0 < interval) :
    point.advance interval < 0 ↔ 2 * point.speed < -point.acceleration * interval := by
  have half : point.advance interval =
      (2 * point.speed - -point.acceleration * interval) * (interval / 2) := by
    rw [advance_eq_add]
    ring
  rw [half]
  constructor
  · intro back
    exact sub_neg.mp (neg_of_mul_neg_left back (half_pos positive).le)
  · intro brakes
    exact mul_neg_of_neg_of_pos (sub_neg.mpr brakes) (half_pos positive)

section Blends

variable {points : List (PlanPoint ℝ)} {point : PlanPoint ℝ} {arc share : ℝ} {index : Nat}

theorem blends_of_planPointAt (some : points ≠ [])
    (found : planPointAt points (planProgress points) arc = .ok point) :
    ∃ index share, LiesAt (planProgress points) (placeOn points arc) index share ∧
      point.Blends points index share := by
  obtain ⟨index, share, lies⟩ := exists_liesAt_placeOn some arc
  obtain ⟨blended, told, blends⟩ := yields_planPointAt some lies
  obtain rfl := Except.ok.inj (found.symm.trans told)
  exact ⟨index, share, lies, blends⟩

theorem PlanPoint.Blends.advance_eq (blends : point.Blends points index share) (interval : ℝ) :
    point.advance interval = blend (points.map fun point => point.advance interval) index share := by
  simp only [PlanPoint.advance_eq_add]
  rw [blend_map_add_mul, blends.speed, blends.acceleration]

theorem PlanPoint.Blends.advance_nonneg (blends : point.Blends points index share)
    (lies : LiesAt (planProgress points) (placeOn points arc) index share) {interval : ℝ}
    (advancing : ∀ point ∈ points, 0 ≤ point.advance interval) : 0 ≤ point.advance interval := by
  rw [blends.advance_eq]
  exact lies.blend_nonneg (List.forall_mem_map.mpr advancing)

theorem PlanPoint.Blends.speed_nonneg (blends : point.Blends points index share)
    (lies : LiesAt (planProgress points) (placeOn points arc) index share)
    (forward : ∀ point ∈ points, 0 ≤ point.speed) : 0 ≤ point.speed := by
  rw [blends.speed]
  exact lies.blend_nonneg (List.forall_mem_map.mpr forward)

theorem PlanPoint.Blends.even (blends : point.Blends points index share)
    (lies : LiesAt (planProgress points) (placeOn points arc) index share)
    {speed acceleration : ℝ}
    (even : ∀ point ∈ points, point.speed = speed ∧ point.acceleration = acceleration) :
    point.speed = speed ∧ point.acceleration = acceleration := by
  have constant {part : PlanPoint ℝ → ℝ} {value : ℝ}
      (equal : ∀ point ∈ points, part point = value) :
      blend (points.map part) index share = value :=
    lies.blend_of_const ((List.length_map _).trans (length_planProgress points).symm)
      (List.forall_mem_map.mpr equal)
  constructor
  · exact blends.speed.trans (constant fun point inside => (even point inside).1)
  · exact blends.acceleration.trans (constant fun point inside => (even point inside).2)

structure PlanPoint.SameState (point other : PlanPoint ℝ) : Prop where
  position : point.pose.position = other.pose.position
  heading : point.pose.heading = other.pose.heading
  speed : point.speed = other.speed
  acceleration : point.acceleration = other.acceleration
  wheelAngle : point.wheelAngle = other.wheelAngle

theorem PlanPoint.SameState.timed {point other : PlanPoint ℝ} (same : point.SameState other)
    (time : ℝ) : PlanPoint.SameState { point with time := time } other where
  position := same.position
  heading := same.heading
  speed := same.speed
  acceleration := same.acceleration
  wheelAngle := same.wheelAngle

theorem getLast_unwrapAngles {angles : List ℝ} (some : angles ≠ [])
    (some' : unwrapAngles angles ≠ []) :
    (((unwrapAngles angles).getLast some' : ℝ) : Real.Angle) = (angles.getLast some : ℝ) := by
  have same := coe_unwrapAngles angles
  have left := List.getLast_map (f := Real.Angle.coe) (l := unwrapAngles angles)
    (by simpa using some')
  have right := List.getLast_map (f := Real.Angle.coe) (l := angles) (by simpa using some)
  exact left.symm.trans ((List.getLast_congr _ _ same).trans right)

theorem PlanPoint.Blends.sameState_getLast (blends : point.Blends points index share)
    (lies : LiesAt (planProgress points) (placeOn points arc) index share) (some : points ≠ [])
    (atEnd : placeOn points arc = planLength points) : point.SameState (points.getLast some) := by
  have length := length_planProgress points
  have ends (values : List ℝ) (same : values.length = points.length) (full : values ≠ []) :
      blend values index share = values.getLast full := by
    apply lies.blend_of_end (same.trans length.symm)
    intro last
    rw [atEnd, planLength_eq_getElem points last]
  have mapped (part : PlanPoint ℝ → ℝ) :
      blend (points.map part) index share = part (points.getLast some) := by
    rw [ends _ (List.length_map _) (by simpa using some), List.getLast_map]
  refine ⟨?_, ?_, ?_, ?_, ?_⟩
  · have x := blends.x.trans (mapped _)
    have y := blends.y.trans (mapped _)
    have z := blends.z.trans (mapped _)
    change Vec3.mk _ _ _ = Vec3.mk _ _ _
    rw [x, y, z]
  · have full : points.map (fun point => point.pose.heading) ≠ [] := by simpa using some
    have turned := getLast_unwrapAngles full (unwrapAngles_ne_nil full)
    rw [List.getLast_map] at turned
    rw [blends.heading, ends _ ((length_unwrapAngles _).trans (List.length_map _))
      (unwrapAngles_ne_nil full), normalizeAngle_congr turned]
    exact normalizeAngle_atan2 _ _
  · exact blends.speed.trans (mapped _)
  · exact blends.acceleration.trans (mapped _)
  · exact blends.wheelAngle.trans (mapped _)

end Blends

namespace Walks

variable {points : List (PlanPoint ℝ)} {interval arc : ℝ} {stops : List (Waypoint ℝ)}

theorem blends (walks : Walks points interval arc stops) (some : points ≠ []) :
    ∀ stop ∈ stops, ∃ index share,
      LiesAt (planProgress points) (placeOn points stop.arc) index share ∧
        stop.point.Blends points index share :=
  fun stop member => blends_of_planPointAt some (walks.found stop member)

/-- A walk never goes back on a plan none of whose points does within a step. -/
theorem place_ascending (walks : Walks points interval arc stops) (some : points ≠ [])
    (advancing : ∀ point ∈ points, 0 ≤ point.advance interval) :
    stops.Pairwise fun first second =>
      placeOn points first.arc ≤ placeOn points second.arc := by
  refine (walks.arc_ascending ?_).imp fun ordered => placeOn_mono points ordered
  intro stop member
  obtain ⟨index, share, lies, blends⟩ := walks.blends some stop member
  exact blends.advance_nonneg lies advancing

theorem sameState_of_ended (walks : Walks points interval arc stops) (some : points ≠ [])
    (advancing : ∀ point ∈ points, 0 ≤ point.advance interval) {step later : Nat}
    (reached : step < stops.length) (reached' : later < stops.length) (before : step ≤ later)
    (ended : placeOn points stops[step].arc = planLength points) :
    stops[later].point.SameState (points.getLast some) := by
  have ordered : placeOn points stops[step].arc ≤ placeOn points stops[later].arc := by
    rcases Nat.eq_or_lt_of_le before with rfl | earlier
    · exact le_refl _
    · exact List.pairwise_iff_getElem.mp (walks.place_ascending some advancing) step later reached
        reached' earlier
  obtain ⟨index, share, lies, blends⟩ := walks.blends some _ (List.getElem_mem reached')
  exact blends.sameState_getLast lies some (le_antisymm (placeOn_le points _) (ended ▸ ordered))

theorem arc_eq_of_even (walks : Walks points interval arc stops) (some : points ≠ []) {speed : ℝ}
    (even : ∀ point ∈ points, point.speed = speed ∧ point.acceleration = 0) (step : Nat)
    (inside : step < stops.length) : stops[step].arc = arc + step * (speed * interval) := by
  apply walks.arc_eq
  intro stop member
  obtain ⟨index, share, lies, blends⟩ := walks.blends some stop member
  obtain ⟨moves, coasts⟩ := blends.even lies even
  rw [PlanPoint.advance_eq_add, moves, coasts, zero_mul, add_zero]

end Walks

theorem placeOn_add_lt_iff (points : List (PlanPoint ℝ)) (arc way : ℝ) :
    placeOn points (arc + way) < placeOn points arc ↔
      way < 0 ∧ 0 < placeOn points arc ∧ arc + way < planLength points := by
  constructor
  · intro back
    have above := placeOn_nonneg points (arc + way)
    refine ⟨?_, above.trans_lt back, ?_⟩
    · by_contra forward
      have ahead := placeOn_mono points (show arc ≤ arc + way by linarith)
      exact absurd back (not_lt.mpr ahead)
    · by_contra inside
      have full : planLength points ≤ placeOn points (arc + way) := by
        rw [placeOn_eq]
        exact le_min (le_max_of_le_left (not_lt.mp inside)) (le_refl _)
      exact absurd (full.trans_lt back) (not_lt.mpr (placeOn_le points arc))
  · rintro ⟨back, behind, inside⟩
    rw [placeOn_eq] at behind
    have after : 0 < arc := by
      rcases lt_max_iff.mp (lt_min_iff.mp behind).1 with after | none
      · exact after
      · exact absurd none (lt_irrefl 0)
    rw [placeOn_eq, placeOn_eq]
    refine (min_le_left _ _).trans_lt (lt_min ?_ ?_)
    · exact max_lt (lt_max_of_lt_left (by linarith)) (lt_max_of_lt_left after)
    · exact max_lt inside (lt_min_iff.mp behind).2

end ManeuverRanking
