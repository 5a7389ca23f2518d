import ManeuverRanking.Candidate
import ManeuverRanking.Geometry.Polyline
import ManeuverRanking.Horizon
import ManeuverRanking.Metric.Collision
import ManeuverRanking.Metric.Comfort
import ManeuverRanking.Metric.Series

/-!
The metric series of a candidate over a horizon. Histories must reach the horizon; what lies beyond
it is not looked at.
-/

namespace ManeuverRanking

structure Extractor (α : Type) [Arithmetic α] where
  wheelBase : α
  horizon : Horizon α

namespace Extractor

variable {α : Type} [Scalar α]

def standardWheelBase : α := 2.79

def cut {β : Type} (extractor : Extractor α) (name : String) (history : List β) :
    Except (Fault α) (List β) :=
  if history.length < extractor.horizon.steps then
    .error (.shortHistory name history.length extractor.horizon.steps)
  else .ok (history.take extractor.horizon.steps)

def wordCount : Nat := 1 <<< 64

def fitsWord (stamp : Int) : Bool :=
  decide (stamp.bmod wordCount = stamp)

/-- The seconds between two stamps, the difference taken in a signed word. -/
def secondsBetween (start stop : Int) : α :=
  ofInt ((stop - start).bmod wordCount) / ofInt nanosecondsPerSecond

def secondsOfStamps (stamps : List Int) : Except (Fault α) (List α) :=
  match stamps.find? fun stamp => !fitsWord stamp with
  | some stamp => .error (.stampRange stamp)
  | none => .ok (List.zipWith secondsBetween stamps (stamps.drop 1))

def ofDriven (extractor : Extractor α) (motion : DrivenMotion α)
    (objects : List (TrackedObjects α)) : Except (Fault α) (MetricSeries α) := do
  let odometry ← extractor.cut "odometry" motion.odometry
  let acceleration ← extractor.cut "acceleration" motion.acceleration
  let steering ← extractor.cut "steering" motion.steering
  let lateral ← (odometry.zip steering).mapM fun (odometry, steering) => do
    return lateralAcceleration (← odometry.speed) steering.tireAngle extractor.wheelBase
  let elapsed ← secondsOfStamps (acceleration.map AccelerationReport.stamp)
  let jerk ← longitudinalJerk (acceleration.map AccelerationReport.longitudinal) elapsed
  let collision ← (odometry.zip objects).mapM fun (odometry, objects) => do
    let velocity ← odometry.pose.toMap odometry.velocity
    timeToCollision objects.objects odometry.pose velocity.toList
  -- What was driven is measured in space, what is planned in the map plane.
  MetricSeries.of lateral jerk collision (pathProgress true (odometry.map Odometry.pose))

def secondsOfPoints (extractor : Extractor α) (points : List (PlanPoint α)) : List α :=
  let elapsed := differences (points.map PlanPoint.time)
  -- Points without times are an interval apart.
  if elapsed.any fun seconds => decide (0 < seconds) then elapsed
  else List.replicate (extractor.horizon.steps - 1) extractor.horizon.interval

def ofPlanned (extractor : Extractor α) (points : List (PlanPoint α))
    (objects : List (TrackedObjects α)) : Except (Fault α) (MetricSeries α) := do
  let points ← extractor.cut "trajectory" points
  let jerk ← longitudinalJerk (points.map PlanPoint.acceleration)
    (extractor.secondsOfPoints points)
  let lateral := points.map fun point =>
    lateralAcceleration point.speed point.wheelAngle extractor.wheelBase
  let collision ← (points.zip objects).mapM fun (point, objects) => do
    let velocity ← point.pose.toMap [point.speed, 0, 0]
    timeToCollision objects.objects point.pose velocity.toList
  MetricSeries.of lateral jerk collision (pathProgress false (points.map PlanPoint.pose))

def extract (extractor : Extractor α) (candidate : Candidate α) :
    Except (Fault α) (MetricSeries α) := do
  let objects ← extractor.cut "objects" candidate.objects
  match candidate.motion with
  | .driven motion => extractor.ofDriven motion objects
  | .planned points => extractor.ofPlanned points objects
  | .unknown kind => throw (.unknownSource kind)

end Extractor

end ManeuverRanking
