import ManeuverRanking.Geometry.Angle
import ManeuverRanking.Geometry.Interpolation
import ManeuverRanking.Geometry.Polyline
import ManeuverRanking.Record

/-!
Points between the points of a plan. Every quantity is interpolated over the progress along the
plan, headings on the shorter way round.
-/

namespace ManeuverRanking

variable {α : Type} [Scalar α]

def planProgress (points : List (PlanPoint α)) : List α :=
  pathProgress false (points.map PlanPoint.pose)

def planArcOf (points : List (PlanPoint α)) (pose : Pose α) : Except (Fault α) α :=
  if points.length < 2 then .ok 0
  else projectToPolyline (points.map fun point => point.pose.planarPosition) pose.planarPosition

def readOver (progress : List α) (arc : α) (values : List α) : Except (Fault α) α :=
  match interpolate? (List.zipWith Node.mk progress values).toArray arc with
  | some value => .ok value
  | none => .error .nothingToInterpolate

/-- The plan point at an arc length, which is first clipped to the plan. -/
def planPointAt (points : List (PlanPoint α)) (progress : List α) (arc : α) :
    Except (Fault α) (PlanPoint α) :=
  if points.length ≠ progress.length then .error .progressLength
  else
    match points, progress.head?, progress.getLast? with
    | [point], _, _ => .ok point
    | _, some first, some last => do
        let read := readOver progress (clip arc first last)
        let x ← read (points.map fun point => point.pose.position.x)
        let y ← read (points.map fun point => point.pose.position.y)
        let heading ← read (unwrapAngles (points.map fun point => point.pose.heading))
        let z ← read (points.map fun point => point.pose.position.z)
        let pose ← Pose.planar ⟨x, y, z⟩ (normalizeAngle heading)
        return {
          pose := pose
          speed := ← read (points.map PlanPoint.speed)
          acceleration := ← read (points.map PlanPoint.acceleration)
          wheelAngle := ← read (points.map PlanPoint.wheelAngle)
          time := ← read (points.map PlanPoint.time) }
    | _, _, _ => .error .nothingToInterpolate

end ManeuverRanking
