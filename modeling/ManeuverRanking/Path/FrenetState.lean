import ManeuverRanking.Geometry.Angle
import ManeuverRanking.Path.Reference

/-!
The motion of the ego vehicle relative to a reference path, after the transformation into the
moving frame of the path. Lateral derivatives are taken with respect to arc length.
-/

namespace ManeuverRanking

variable {α : Type} [Scalar α]

structure FrenetState (α : Type) where
  position : FrenetPoint α
  speed : α
  acceleration : α
  lateralRate : α
  lateralBend : α

namespace FrenetState

def curvatureStep : α := 0.001

def curvatureChange (path : ReferencePath α) (place : α) : α :=
  (path.curvature (place + curvatureStep) - path.curvature place) / curvatureStep

/-- The state of the ego vehicle; its own curvature is taken to be that of the path. -/
def ofEgo (path : ReferencePath α) (odometry : Odometry α)
    (acceleration : AccelerationReport α) : Except (Fault α) (FrenetState α) := do
  let position ← path.frenet odometry.pose.planarPosition
  let yaw := normalizeAngle (odometry.pose.heading - path.yaw position.along)
  let curvature := path.curvature position.along
  let change := curvatureChange path position.along
  let shrink := 1 - curvature * position.offset
  let lateralRate := shrink * Scalar.tan yaw
  let cosine := Scalar.cos yaw
  -- Derivatives along the path, by the chain rule.
  let lateralBend :=
    if sameAs cosine 0 then 0
    else
      -(change * position.offset + curvature * lateralRate) * Scalar.tan yaw
        + shrink / (cosine * cosine) * (curvature * shrink / cosine - curvature)
  return ⟨position, ← odometry.speed, acceleration.longitudinal, lateralRate, lateralBend⟩

end FrenetState

end ManeuverRanking
