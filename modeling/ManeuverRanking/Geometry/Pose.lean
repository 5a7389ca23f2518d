import ManeuverRanking.Geometry.Quaternion

/-!
Poses in the map frame.
-/

namespace ManeuverRanking

structure Pose (α : Type) where
  position : Vec3 α
  orientation : Quaternion α
  deriving Repr

namespace Pose

variable {α : Type} [Scalar α]

def planar (position : Vec3 α) (heading : α) : Except (Fault α) (Pose α) :=
  if isFinite heading ∨ isUndefined heading then
    .ok ⟨position, Quaternion.aboutVertical heading⟩
  else .error .infiniteAngle

def x (pose : Pose α) : α :=
  pose.position.x

def y (pose : Pose α) : α :=
  pose.position.y

def heading (pose : Pose α) : α :=
  pose.orientation.heading

def toMap (pose : Pose α) (velocity : List α) : Except (Fault α) (Vec3 α) := do
  return pose.orientation.rotate (← Vec3.ofVelocity velocity)

end Pose

end ManeuverRanking
