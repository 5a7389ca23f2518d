import ManeuverRanking.Fault
import ManeuverRanking.Scalar.Order
import ManeuverRanking.Scalar.Series

/-!
The two comfort metrics: lateral acceleration of a kinematic bicycle, and longitudinal jerk as the
forward difference of acceleration.
-/

namespace ManeuverRanking

def leastSteeringTangent {α : Type} [Scalar α] : α := 1e-9

def lateralAcceleration {α : Type} [Scalar α] (speed steeringAngle wheelBase : α) : α :=
  let tangent := Scalar.tan steeringAngle
  if abs tangent < leastSteeringTangent then 0
  else speed * speed / (wheelBase / tangent)

variable {α : Type} [Arithmetic α]

def jerkOver (change elapsed : α) : α :=
  if 0 < elapsed then change / elapsed else 0

/-- The jerk at each step. There is no step after the last one, so its entry is zero. -/
def longitudinalJerk (accelerations elapsedTimes : List α) : Except (Fault α) (List α) :=
  if elapsedTimes.length ≠ accelerations.length - 1 then .error .elapsedTimes
  else
    match accelerations with
    | [] => .ok []
    | _ => .ok (List.zipWith jerkOver (differences accelerations) elapsedTimes ++ [0])

end ManeuverRanking
