import ManeuverRanking.Geometry.Pose

/-!
What the streams of a drive carry. Times are whole nanoseconds. Velocities are given by their
components in the frame of the body they belong to: forward, to the left and up.
-/

namespace ManeuverRanking

structure Odometry (α : Type) where
  stamp : Int
  pose : Pose α
  velocity : List α

namespace Odometry

def speed {α : Type} (odometry : Odometry α) : Except (Fault α) α :=
  match odometry.velocity with
  | forward :: _ => .ok forward
  | [] => .error .noSpeed

end Odometry

structure AccelerationReport (α : Type) where
  stamp : Int
  longitudinal : α
  lateral : α

structure SteeringReport (α : Type) where
  stamp : Int
  tireAngle : α

structure TrackedObject (α : Type) where
  identity : String
  pose : Pose α
  velocity : List α

structure TrackedObjects (α : Type) where
  stamp : Int
  objects : List (TrackedObject α)

structure FrameTransform (α : Type) where
  stamp : Int
  frame : String
  child : String
  pose : Pose α

structure TransformBatch (α : Type) where
  transforms : List (FrameTransform α)

structure PlanPoint (α : Type) where
  pose : Pose α
  speed : α
  acceleration : α
  wheelAngle : α
  /-- Seconds from the start of the plan. -/
  time : α

structure Plan (α : Type) where
  stamp : Int
  points : List (PlanPoint α)

@[reducible] def Payload (α : Type) : Stream → Type
  | .transforms => TransformBatch α
  | .odometry => Odometry α
  | .objects => TrackedObjects α
  | .acceleration => AccelerationReport α
  | .steering => SteeringReport α
  | .plan => Plan α

variable {α : Type}

def TransformBatch.stamp (batch : TransformBatch α) : Except (Fault α) Int :=
  match batch.transforms with
  | [] => .error .emptyTransformBatch
  | first :: _ => .ok first.stamp

def recordStamp : (stream : Stream) → Payload α stream → Except (Fault α) Int
  | .transforms, batch => batch.stamp
  | .odometry, odometry => .ok odometry.stamp
  | .objects, objects => .ok objects.stamp
  | .acceleration, report => .ok report.stamp
  | .steering, report => .ok report.stamp
  | .plan, plan => .ok plan.stamp

end ManeuverRanking
