import Mathlib.Analysis.SpecialFunctions.Complex.Arg
import ManeuverRanking.Proofs.Geometry.Interpolation
import ManeuverRanking.Proofs.Geometry.Polyline
import ManeuverRanking.Proofs.Geometry.Unwrapping
import ManeuverRanking.Proofs.Plan.Walk
import ManeuverRanking.Proofs.Scalar.Ordered

/-!
Plan points at arc lengths over the real numbers. An arc length is first clipped to the plan; there
every quantity of the plan is read at the same place between two neighbouring points.
-/

namespace ManeuverRanking

section Plan

variable {points : List (PlanPoint ℝ)} {index : Nat} {share : ℝ}

theorem length_planProgress (points : List (PlanPoint ℝ)) :
    (planProgress points).length = points.length := by
  rw [planProgress, length_pathProgress, List.length_map]

theorem planProgress_eq_cons (some : points ≠ []) : ∃ rest, planProgress points = 0 :: rest := by
  obtain ⟨first, rest, rfl⟩ := List.exists_cons_of_ne_nil some
  exact ⟨_, rfl⟩

theorem head?_planProgress (some : points ≠ []) : (planProgress points).head? = .some 0 := by
  obtain ⟨rest, progress⟩ := planProgress_eq_cons some
  rw [progress, List.head?_cons]

theorem planProgress_ascending (points : List (PlanPoint ℝ)) :
    (planProgress points).Pairwise (· ≤ ·) := by
  cases points with
  | nil => exact List.Pairwise.nil
  | cons first rest =>
      apply runningTotals_ascending
      exact stepLengths_nonneg (fun _ _ => Real.sqrt_nonneg _) _

noncomputable def planLength (points : List (PlanPoint ℝ)) : ℝ :=
  (planProgress points).getLastD 0

noncomputable def placeOn (points : List (PlanPoint ℝ)) (arc : ℝ) : ℝ :=
  clip arc 0 (planLength points)

theorem getLast?_planProgress (some : points ≠ []) :
    (planProgress points).getLast? = .some (planLength points) := by
  obtain ⟨rest, progress⟩ := planProgress_eq_cons some
  rw [planLength, progress, List.getLast?_cons, List.getLastD_cons]
  cases rest <;> rfl

theorem planLength_eq_getElem (points : List (PlanPoint ℝ))
    (last : (planProgress points).length - 1 < (planProgress points).length) :
    planLength points = (planProgress points)[(planProgress points).length - 1] := by
  rw [planLength, List.getLastD_eq_getLast?, List.getLast?_eq_getElem?,
    List.getElem?_eq_getElem last, Option.getD_some]

theorem planLength_nonneg (points : List (PlanPoint ℝ)) : 0 ≤ planLength points := by
  by_cases some : points = []
  · subst some
    exact le_refl 0
  · obtain ⟨rest, progress⟩ := planProgress_eq_cons some
    have ascending := planProgress_ascending points
    rw [progress] at ascending
    rw [planLength, progress, List.getLastD_cons]
    rcases List.mem_cons.mp (List.getLastD_mem_cons (l := rest) (a := 0)) with whole | later
    · exact whole.ge
    · exact (List.pairwise_cons.mp ascending).1 _ later

theorem placeOn_eq (points : List (PlanPoint ℝ)) (arc : ℝ) :
    placeOn points arc = min (max arc 0) (planLength points) :=
  Exact.clip_eq arc 0 _

theorem placeOn_le (points : List (PlanPoint ℝ)) (arc : ℝ) :
    placeOn points arc ≤ planLength points := by
  rw [placeOn_eq]
  exact min_le_right _ _

theorem placeOn_nonneg (points : List (PlanPoint ℝ)) (arc : ℝ) : 0 ≤ placeOn points arc := by
  rw [placeOn_eq]
  exact le_min (le_max_right _ _) (planLength_nonneg points)

theorem placeOn_mono (points : List (PlanPoint ℝ)) {first second : ℝ} (ordered : first ≤ second) :
    placeOn points first ≤ placeOn points second := by
  rw [placeOn_eq, placeOn_eq]
  exact min_le_min_right _ (max_le_max_right 0 ordered)

theorem placeOn_of_le {arc : ℝ} (beyond : planLength points ≤ arc) :
    placeOn points arc = planLength points := by
  rw [placeOn_eq, max_eq_left ((planLength_nonneg points).trans beyond), min_eq_right beyond]

theorem placeOn_min (points : List (PlanPoint ℝ)) (arc : ℝ) :
    placeOn points (min arc (planLength points)) = placeOn points arc := by
  rcases le_total arc (planLength points) with inside | beyond
  · rw [min_eq_left inside]
  · rw [min_eq_right beyond, placeOn_of_le beyond, placeOn_of_le (le_refl _)]

theorem exists_liesAt_placeOn (some : points ≠ []) (arc : ℝ) :
    ∃ index share, LiesAt (planProgress points) (placeOn points arc) index share := by
  obtain ⟨rest, progress⟩ := planProgress_eq_cons some
  have last : (planProgress points).length - 1 < (planProgress points).length := by
    simp [progress]
  apply exists_liesAt (planProgress_ascending points) (Nat.zero_lt_of_lt last)
  · simp only [progress, List.getElem_cons_zero]
    exact placeOn_nonneg points arc
  · rw [← planLength_eq_getElem points last]
    exact placeOn_le points arc

structure PlanPoint.Blends (point : PlanPoint ℝ) (points : List (PlanPoint ℝ)) (index : Nat)
    (share : ℝ) : Prop where
  x : point.pose.position.x = blend (points.map fun point => point.pose.position.x) index share
  y : point.pose.position.y = blend (points.map fun point => point.pose.position.y) index share
  z : point.pose.position.z = blend (points.map fun point => point.pose.position.z) index share
  heading : point.pose.heading =
    normalizeAngle (blend (unwrapAngles (points.map fun point => point.pose.heading)) index share)
  speed : point.speed = blend (points.map PlanPoint.speed) index share
  acceleration : point.acceleration = blend (points.map PlanPoint.acceleration) index share
  wheelAngle : point.wheelAngle = blend (points.map PlanPoint.wheelAngle) index share
  time : point.time = blend (points.map PlanPoint.time) index share

theorem PlanPoint.blends_self (point : PlanPoint ℝ) : point.Blends [point] 0 0 where
  x := by simp [blend]
  y := by simp [blend]
  z := by simp [blend]
  heading := by
    have turned : normalizeAngle point.pose.heading = point.pose.heading :=
      normalizeAngle_atan2 _ _
    simp [blend, unwrapAngles, turned]
  speed := by simp [blend]
  acceleration := by simp [blend]
  wheelAngle := by simp [blend]
  time := by simp [blend]

theorem yields_planPointAt (some : points ≠ []) {arc : ℝ}
    (lies : LiesAt (planProgress points) (placeOn points arc) index share) :
    Yields (planPointAt points (planProgress points) arc) fun point =>
      point.Blends points index share := by
  have length := length_planProgress points
  unfold planPointAt
  rw [if_neg (not_not_intro length.symm), head?_planProgress some, getLast?_planProgress some]
  -- A plan of one point has no table to read; it is that point everywhere.
  split
  · rename_i point
    rw [List.length_singleton] at length
    have first : index = 0 := Nat.lt_one_iff.mp (length ▸ lies.inside)
    have none : share = 0 := lies.atEnd (by omega)
    rw [first, none]
    exact .ok point.blends_self
  · rename_i points _ _ _ first last _ firstEq lastEq
    obtain rfl := Option.some.inj firstEq
    obtain rfl := Option.some.inj lastEq
    have read (values : List ℝ) (same : values.length = points.length) :
        readOver (planProgress points) (clip arc 0 (planLength points)) values =
          .ok (blend values index share) :=
      lies.readOver_eq (planProgress_ascending points) (same.trans length.symm)
    have mapped (part : PlanPoint ℝ → ℝ) := read (points.map part) (List.length_map _)
    have angles := read (unwrapAngles (points.map fun point => point.pose.heading))
      ((length_unwrapAngles _).trans (List.length_map _))
    simp only [mapped, angles, Pose.planar_eq, bind, Except.bind, pure, Except.pure]
    refine .ok ⟨rfl, rfl, rfl, ?_, rfl, rfl, rfl, rfl⟩
    rw [Pose.heading_aboutVertical]
    exact normalizeAngle_atan2 _ _
  · rename_i missing
    exact absurd rfl (missing 0 _ rfl)

theorem planPointAt_congr (some : points ≠ []) {first second : ℝ}
    (same : placeOn points first = placeOn points second) :
    planPointAt points (planProgress points) first =
      planPointAt points (planProgress points) second := by
  have long := not_not_intro (length_planProgress points).symm
  unfold placeOn at same
  unfold planPointAt
  rw [if_neg long, if_neg long, head?_planProgress some, getLast?_planProgress some]
  split
  · rfl
  · rename_i firstEq lastEq
    obtain rfl := Option.some.inj firstEq
    obtain rfl := Option.some.inj lastEq
    rw [same]
  · rfl

end Plan

end ManeuverRanking
