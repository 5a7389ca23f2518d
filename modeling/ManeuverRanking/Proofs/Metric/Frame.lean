import Mathlib.Analysis.SpecialFunctions.Complex.Arg
import ManeuverRanking.Proofs.Delay.Scoring
import ManeuverRanking.Proofs.Geometry.Motion

/-!
Metrics do not depend on the choice of the map frame. Poses enter them only through distances, and
through velocities along lines of sight; both stay what they are when all poses are moved together.
-/

namespace ManeuverRanking

theorem ofList_toList {α : Type} (vector : Vec3 α) : Vec3.ofList vector.toList = .ok vector :=
  rfl

namespace RigidMotion

variable (motion : RigidMotion)

noncomputable def object (object : TrackedObject ℝ) : TrackedObject ℝ :=
  { object with pose := motion.pose object.pose }

noncomputable def objects (tracked : TrackedObjects ℝ) : TrackedObjects ℝ :=
  { tracked with objects := tracked.objects.map motion.object }

noncomputable def odometry (odometry : Odometry ℝ) : Odometry ℝ :=
  { odometry with pose := motion.pose odometry.pose }

noncomputable def planPoint (point : PlanPoint ℝ) : PlanPoint ℝ :=
  { point with pose := motion.pose point.pose }

noncomputable def driven (driven : DrivenMotion ℝ) : DrivenMotion ℝ :=
  { driven with odometry := driven.odometry.map motion.odometry }

noncomputable def egoMotion : Motion ℝ → Motion ℝ
  | .driven driven => .driven (motion.driven driven)
  | .planned points => .planned (points.map motion.planPoint)
  | .unknown kind => .unknown kind

noncomputable def candidate (candidate : Candidate ℝ) : Candidate ℝ :=
  { candidate with
    motion := motion.egoMotion candidate.motion
    objects := candidate.objects.map motion.objects }

theorem pathProgress_pose (inSpace : Bool) (poses : List (Pose ℝ)) :
    pathProgress inSpace (poses.map motion.pose) = pathProgress inSpace poses := by
  cases poses with
  | nil => rfl
  | cons first rest =>
      simp only [pathProgress, List.map_cons]
      rw [← List.map_cons, stepLengths_map]
      intro start stop
      simp only [pose, move_sub_move, norm_turn, planarNorm_turn]

theorem ofObject_move (pose : Pose ℝ) (velocity : Vec3 ℝ) (object : TrackedObject ℝ) :
    Approach.ofObject (motion.pose pose) (motion.turn velocity).toList (motion.object object) =
      Approach.ofObject pose velocity.toList object := by
  have sight : (motion.object object).pose.position.sub (motion.pose pose).position =
      motion.turn (object.pose.position.sub pose.position) :=
    motion.move_sub_move _ _
  simp only [Approach.ofObject, sight, norm_turn, divide_turn]
  split
  · rfl
  · simp only [RigidMotion.object, toMap_pose, map_bind]
    apply bind_congr_of_ok
    intro objectVelocity _
    simp only [ofList_toList, Function.comp_apply, bind, Except.bind, dot_turn]

theorem soonest_move (pose : Pose ℝ) (velocity : Vec3 ℝ) (found : Option ℝ)
    (objects : List (TrackedObject ℝ)) :
    soonest (motion.pose pose) (motion.turn velocity).toList found (objects.map motion.object) =
      soonest pose velocity.toList found objects := by
  induction objects generalizing found with
  | nil => rfl
  | cons object rest ih =>
      simp only [List.map_cons, soonest, ofObject_move, ih]

theorem timeToCollision_move (pose : Pose ℝ) (velocity : List ℝ)
    (objects : List (TrackedObject ℝ)) :
    (do
      let velocity ← (motion.pose pose).toMap velocity
      timeToCollision (objects.map motion.object) (motion.pose pose) velocity.toList) =
    (do
      let velocity ← pose.toMap velocity
      timeToCollision objects pose velocity.toList) := by
  rw [toMap_pose, map_bind]
  apply bind_congr_of_ok
  intro velocity _
  exact motion.soonest_move pose velocity none objects

end RigidMotion

namespace Extractor

variable (extractor : Extractor ℝ) (motion : RigidMotion)

theorem ofDriven_move (driven : DrivenMotion ℝ) (objects : List (TrackedObjects ℝ)) :
    extractor.ofDriven (motion.driven driven) (objects.map motion.objects) =
      extractor.ofDriven driven objects := by
  unfold ofDriven
  simp only [RigidMotion.driven, cut_map, map_bind]
  apply bind_congr_of_ok
  intro odometry _
  apply bind_congr_of_ok
  intro acceleration _
  apply bind_congr_of_ok
  intro steering _
  have poses : (odometry.map motion.odometry).map Odometry.pose =
      (odometry.map Odometry.pose).map motion.pose := by
    simp only [List.map_map]
    rfl
  have steered : (odometry.map motion.odometry).zip steering =
      (odometry.zip steering).map (Prod.map motion.odometry id) :=
    List.zip_map_left
  have observed : (odometry.map motion.odometry).zip (objects.map motion.objects) =
      (odometry.zip objects).map (Prod.map motion.odometry motion.objects) :=
    List.zip_map
  have collision (entry : Odometry ℝ × TrackedObjects ℝ) :=
    motion.timeToCollision_move entry.1.pose entry.1.velocity entry.2.objects
  simp only [steered, observed, mapM_map, poses, motion.pathProgress_pose]
  simp only [Function.comp_def, Prod.map_fst, Prod.map_snd, RigidMotion.odometry,
    RigidMotion.objects, collision]
  rfl

theorem ofPlanned_move (points : List (PlanPoint ℝ)) (objects : List (TrackedObjects ℝ)) :
    extractor.ofPlanned (points.map motion.planPoint) (objects.map motion.objects) =
      extractor.ofPlanned points objects := by
  unfold ofPlanned
  simp only [cut_map, map_bind]
  apply bind_congr_of_ok
  intro points _
  have poses : (points.map motion.planPoint).map PlanPoint.pose =
      (points.map PlanPoint.pose).map motion.pose := by
    simp only [List.map_map]
    rfl
  have times : (points.map motion.planPoint).map PlanPoint.time = points.map PlanPoint.time := by
    simp only [List.map_map]
    rfl
  have accelerations : (points.map motion.planPoint).map PlanPoint.acceleration =
      points.map PlanPoint.acceleration := by
    simp only [List.map_map]
    rfl
  have collision (entry : PlanPoint ℝ × TrackedObjects ℝ) :=
    motion.timeToCollision_move entry.1.pose [entry.1.speed, 0, 0] entry.2.objects
  have lateral : ((points.map motion.planPoint).map fun point =>
      lateralAcceleration point.speed point.wheelAngle extractor.wheelBase) =
      points.map fun point =>
        lateralAcceleration point.speed point.wheelAngle extractor.wheelBase := by
    simp only [List.map_map]
    rfl
  simp only [Function.comp_apply, secondsOfPoints, times, accelerations, lateral, List.zip_map,
    mapM_map, poses, motion.pathProgress_pose]
  simp only [Function.comp_def, Prod.map_fst, Prod.map_snd, RigidMotion.planPoint,
    RigidMotion.objects, collision]

theorem extract_candidate (candidate : Candidate ℝ) :
    extractor.extract (motion.candidate candidate) = extractor.extract candidate := by
  unfold extract
  simp only [RigidMotion.candidate, cut_map, map_bind]
  apply bind_congr_of_ok
  intro objects _
  cases candidate.motion with
  | driven driven => exact extractor.ofDriven_move motion driven objects
  | planned points => exact extractor.ofPlanned_move motion points objects
  | unknown kind => rfl

end Extractor

/-- Neither the metrics nor the scores of a candidate change with the map frame. -/
theorem Builder.scoreCandidate_move (builder : Builder ℝ) (motion : RigidMotion)
    (candidate : Candidate ℝ) :
    builder.extractor.extract (motion.candidate candidate) = builder.extractor.extract candidate ∧
      builder.scoreCandidate (motion.candidate candidate) =
        (builder.scoreCandidate candidate).map fun scored =>
          { scored with candidate := motion.candidate candidate } := by
  have same := builder.extractor.extract_candidate motion candidate
  refine ⟨same, ?_⟩
  unfold scoreCandidate
  rw [same]
  cases builder.extractor.extract candidate with
  | error fault => rfl
  | ok metrics =>
      simp only [bind, Except.bind]
      cases builder.scorer.score metrics <;> rfl

end ManeuverRanking
