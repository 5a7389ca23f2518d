import ManeuverRanking.Metric.Extract
import ManeuverRanking.Proofs.Ensures

/-!
Extraction of metrics. Where histories reach the horizon, every series has one entry for each step,
and nothing fails on the way but an operation on the numbers themselves. None does where velocities
have three components and stamps fit words.
-/

namespace ManeuverRanking

variable {α : Type} [Scalar α]

section Collision

omit [Scalar α] in
theorem completes_ofList {components : List α} (spatial : components.length = 3) :
    Completes (Vec3.ofList components) := by
  match components, spatial with
  | [x, y, z], _ => exact completes_ok _

theorem completes_toMap (pose : Pose α) {velocity : List α} (spatial : velocity.length = 3) :
    Completes (pose.toMap velocity) := by
  match velocity, spatial with
  | [x, y, z], _ => exact completes_ok _

theorem completes_ofObject (pose : Pose α) {velocity : List α} (spatial : velocity.length = 3)
    {object : TrackedObject α} (moving : object.velocity.length = 3) :
    Completes (Approach.ofObject pose velocity object) := by
  unfold Approach.ofObject
  dsimp only
  split
  · exact completes_ok _
  · apply (completes_toMap object.pose moving).bind
    intro _
    exact (completes_ofList spatial).bind fun _ => completes_ok _

theorem completes_soonest (pose : Pose α) {velocity : List α} (spatial : velocity.length = 3)
    (found : Option α) {objects : List (TrackedObject α)}
    (moving : ∀ object ∈ objects, object.velocity.length = 3) :
    Completes (soonest pose velocity found objects) := by
  induction objects generalizing found with
  | nil => exact completes_ok _
  | cons object rest ih =>
      have later : ∀ found, Completes (soonest pose velocity found rest) :=
        fun found => ih found fun other inside => moving other (List.mem_cons_of_mem _ inside)
      apply (completes_ofObject pose spatial (moving object List.mem_cons_self)).bind
      intro approach
      cases approach with
      | contact => exact completes_ok _
      | receding => exact later found
      | closing time => exact later _

end Collision

section Lengths

theorem length_differences (values : List α) :
    (differences values).length = values.length - 1 := by
  induction values with
  | nil => rfl
  | cons first rest ih =>
      cases rest with
      | nil => rfl
      | cons second rest => simpa [differences] using ih

theorem length_runningTotals (start : α) (values : List α) :
    (runningTotals start values).length = values.length := by
  induction values generalizing start with
  | nil => rfl
  | cons value rest ih => simp [runningTotals, ih]

omit [Scalar α] in
theorem length_stepLengths {β : Type} (distance : β → β → α) (points : List β) :
    (stepLengths distance points).length = points.length - 1 := by
  induction points with
  | nil => rfl
  | cons first rest ih =>
      cases rest with
      | nil => rfl
      | cons second rest => simpa [stepLengths] using ih

theorem length_pathProgress (inSpace : Bool) (poses : List (Pose α)) :
    (pathProgress inSpace poses).length = poses.length := by
  cases poses with
  | nil => rfl
  | cons first rest =>
      simp only [pathProgress, progressOf, List.length_cons, length_runningTotals,
        length_stepLengths]
      omega

theorem head?_pathProgress (inSpace : Bool) {poses : List (Pose α)} (filled : poses ≠ []) :
    (pathProgress inSpace poses).head? = some 0 := by
  obtain ⟨first, rest, rfl⟩ := List.exists_cons_of_ne_nil filled
  rfl

theorem yields_longitudinalJerk {accelerations elapsed : List α}
    (timed : elapsed.length = accelerations.length - 1) :
    Yields (longitudinalJerk accelerations elapsed) fun jerk =>
      jerk.length = accelerations.length ∧ (accelerations ≠ [] → jerk.getLast? = some 0) := by
  unfold longitudinalJerk
  rw [if_neg (not_not_intro timed)]
  cases accelerations with
  | nil => exact .ok ⟨rfl, nofun⟩
  | cons first rest =>
      apply Yields.ok
      refine ⟨?_, fun _ => List.getLast?_concat ..⟩
      simp only [List.length_append, List.length_zipWith, length_differences, timed,
        List.length_cons, List.length_nil]
      omega

end Lengths

/-- Four series with one entry for each step. After the last step there is no jerk, and before the
first one no way. -/
structure MetricSeries.Spans (series : MetricSeries α) (steps : Nat) : Prop where
  lateral : series.lateralAcceleration.length = steps
  jerk : series.longitudinalJerk.length = steps
  collision : series.timeToCollision.length = steps
  distance : series.travelDistance.length = steps
  lastJerk : series.longitudinalJerk.getLast? = some 0
  firstDistance : series.travelDistance.head? = some 0

theorem yields_series {lateral jerk collision distance : List α} {steps : Nat}
    (laterals : lateral.length = steps) (jerks : jerk.length = steps)
    (collisions : collision.length = steps) (distances : distance.length = steps)
    (lastJerk : jerk.getLast? = some 0) (firstDistance : distance.head? = some 0) :
    Yields (MetricSeries.of lateral jerk collision distance) fun series => series.Spans steps := by
  unfold MetricSeries.of
  rw [dif_pos ⟨jerks.trans laterals.symm, collisions.trans laterals.symm,
    distances.trans laterals.symm⟩]
  exact .ok ⟨laterals, jerks, collisions, distances, lastJerk, firstDistance⟩

def collisionAt (pose : Pose α) (velocity : List α) (tracked : TrackedObjects α) :
    Except (Fault α) α := do
  let velocity ← pose.toMap velocity
  timeToCollision tracked.objects pose velocity.toList

theorem completes_collisionAt (pose : Pose α) {velocity : List α} (spatial : velocity.length = 3)
    {tracked : TrackedObjects α} (moving : ∀ object ∈ tracked.objects, object.velocity.length = 3) :
    Completes (collisionAt pose velocity tracked) := by
  apply (completes_toMap pose spatial).bind
  intro velocity
  exact completes_soonest _ rfl _ moving

omit [Scalar α] in
theorem completes_speed {entry : Odometry α} (spatial : entry.velocity.length = 3) :
    Completes entry.speed := by
  match velocity : entry.velocity, spatial with
  | forward :: _, _ =>
      rw [Odometry.speed, velocity]
      exact completes_ok _

namespace Extractor

variable {extractor : Extractor α}

theorem cut_eq {β : Type} (name : String) {history : List β}
    (reaches : extractor.horizon.steps ≤ history.length) :
    extractor.cut name history = .ok (history.take extractor.horizon.steps) :=
  if_neg (Nat.not_lt.mpr reaches)

theorem ensures_secondsOfStamps {allowed : Fault α → Prop} {stamps : List Int}
    (fits : ∀ stamp ∈ stamps, fitsWord stamp = true ∨ allowed (.stampRange stamp)) :
    Ensures allowed (fun elapsed => elapsed.length = stamps.length - 1)
      (secondsOfStamps stamps : Except (Fault α) (List α)) := by
  unfold secondsOfStamps
  split
  · rename_i stamp found
    have wide := List.find?_some found
    refine (fits stamp (List.mem_of_find?_eq_some found)).resolve_left ?_
    simpa using wide
  · change List.length _ = _
    simp only [List.length_zipWith, List.length_drop]
    omega

theorem length_secondsOfPoints (extractor : Extractor α) {points : List (PlanPoint α)}
    (full : points.length = extractor.horizon.steps) :
    (extractor.secondsOfPoints points).length = points.length - 1 := by
  unfold secondsOfPoints
  dsimp only
  split
  · rw [length_differences, List.length_map]
  · rw [List.length_replicate, full]

section Reaching

variable {allowed : Fault α → Prop} {objects : List (TrackedObjects α)}

theorem ne_nil_of_full {β : Type} {history : List β}
    (full : history.length = extractor.horizon.steps) : history ≠ [] := by
  rw [← List.length_pos_iff, full]
  exact extractor.horizon.steps_pos

theorem ensures_ofDriven {motion : DrivenMotion α}
    (odometry : extractor.horizon.steps ≤ motion.odometry.length)
    (acceleration : extractor.horizon.steps ≤ motion.acceleration.length)
    (steering : extractor.horizon.steps ≤ motion.steering.length)
    (full : objects.length = extractor.horizon.steps)
    (speeds : ∀ entry ∈ motion.odometry.take extractor.horizon.steps,
      Ensures allowed (fun _ => True) entry.speed)
    (stamps : ∀ report ∈ motion.acceleration.take extractor.horizon.steps,
      fitsWord report.stamp = true ∨ allowed (.stampRange report.stamp))
    (times : ∀ pair ∈ (motion.odometry.take extractor.horizon.steps).zip objects,
      Ensures allowed (fun _ => True) (collisionAt pair.1.pose pair.1.velocity pair.2)) :
    Ensures allowed (fun series => series.Spans extractor.horizon.steps)
      (extractor.ofDriven motion objects) := by
  have driven := List.length_take_of_le odometry
  have felt := List.length_take_of_le acceleration
  have steered := List.length_take_of_le steering
  rw [ofDriven, cut_eq _ odometry, cut_eq _ acceleration, cut_eq _ steering]
  have laterals : ∀ pair ∈ (motion.odometry.take extractor.horizon.steps).zip
      (motion.steering.take extractor.horizon.steps), Ensures allowed (fun _ => True) (do
        return lateralAcceleration (← pair.1.speed) pair.2.tireAngle extractor.wheelBase) :=
    fun pair member => (speeds pair.1 (List.of_mem_zip member).1).bind fun _ _ => trivial
  apply (Ensures.mapM laterals).bind
  rintro lateral ⟨lateralLength, -⟩
  apply (ensures_secondsOfStamps (List.forall_mem_map.mpr stamps)).bind
  intro elapsed elapsedLength
  have timed : elapsed.length = ((motion.acceleration.take extractor.horizon.steps).map
      AccelerationReport.longitudinal).length - 1 := by
    rw [elapsedLength, List.length_map, List.length_map]
  apply (Ensures.of_yields (yields_longitudinalJerk timed)).bind
  rintro jerk ⟨jerkLength, last⟩
  apply (Ensures.mapM times).bind
  rintro collision ⟨collisionLength, -⟩
  rw [List.length_zip] at lateralLength collisionLength
  rw [List.length_map] at jerkLength
  apply Ensures.of_yields
  apply yields_series
  · omega
  · omega
  · omega
  · rw [length_pathProgress, List.length_map, driven]
  · exact last (ne_nil_of_full ((List.length_map _).trans felt))
  · exact head?_pathProgress _ (ne_nil_of_full ((List.length_map _).trans driven))

theorem ensures_ofPlanned {points : List (PlanPoint α)}
    (reaches : extractor.horizon.steps ≤ points.length)
    (full : objects.length = extractor.horizon.steps)
    (times : ∀ pair ∈ (points.take extractor.horizon.steps).zip objects,
      Ensures allowed (fun _ => True) (collisionAt pair.1.pose [pair.1.speed, 0, 0] pair.2)) :
    Ensures allowed (fun series => series.Spans extractor.horizon.steps)
      (extractor.ofPlanned points objects) := by
  have planned := List.length_take_of_le reaches
  rw [ofPlanned, cut_eq _ reaches]
  have timed : (extractor.secondsOfPoints (points.take extractor.horizon.steps)).length =
      ((points.take extractor.horizon.steps).map PlanPoint.acceleration).length - 1 := by
    rw [length_secondsOfPoints extractor planned, List.length_map]
  apply (Ensures.of_yields (yields_longitudinalJerk timed)).bind
  rintro jerk ⟨jerkLength, last⟩
  apply (Ensures.mapM times).bind
  rintro collision ⟨collisionLength, -⟩
  rw [List.length_zip] at collisionLength
  rw [List.length_map] at jerkLength
  apply Ensures.of_yields
  apply yields_series
  · rw [List.length_map, planned]
  · omega
  · omega
  · rw [length_pathProgress, List.length_map, planned]
  · exact last (ne_nil_of_full ((List.length_map _).trans planned))
  · exact head?_pathProgress _ (ne_nil_of_full ((List.length_map _).trans planned))

end Reaching

end Extractor

end ManeuverRanking
