import ManeuverRanking.Geometry.Vector
import ManeuverRanking.Scalar.Order

/-!
Orientations as quaternions. Heading and rotation first bring a copy to unit length, unless it has
that length already or no length to divide by.
-/

namespace ManeuverRanking

structure Quaternion (α : Type) where
  w : α
  x : α
  y : α
  z : α
  deriving Repr

namespace Quaternion

variable {α : Type} [Scalar α]

def identity : Quaternion α :=
  ⟨1, 0, 0, 0⟩

def aboutVertical (angle : α) : Quaternion α :=
  let half := angle / 2.0
  let sine := Scalar.sin half
  ⟨Scalar.cos half, 0 * sine, 0 * sine, 1 * sine⟩

def mul (left right : Quaternion α) : Quaternion α :=
  -- Each sum is taken in the order of the right factor, which rounding tells.
  ⟨left.w * right.w + -left.x * right.x + -left.y * right.y + -left.z * right.z,
    left.x * right.w + left.w * right.x + -left.z * right.y + left.y * right.z,
    left.y * right.w + left.z * right.x + left.w * right.y + -left.x * right.z,
    left.z * right.w + -left.y * right.x + left.x * right.y + left.w * right.z⟩

def conjugate (quaternion : Quaternion α) : Quaternion α :=
  ⟨quaternion.w, -quaternion.x, -quaternion.y, -quaternion.z⟩

def normSquared (quaternion : Quaternion α) : α :=
  quaternion.w * quaternion.w + quaternion.x * quaternion.x + quaternion.y * quaternion.y
    + quaternion.z * quaternion.z

def unitTolerance : α := 1e-14

def normalized (quaternion : Quaternion α) : Quaternion α :=
  let squared := quaternion.normSquared
  if abs (1 - squared) < unitTolerance then quaternion
  else
    let norm := Scalar.sqrt squared
    if 0 < norm then
      ⟨quaternion.w / norm, quaternion.x / norm, quaternion.y / norm, quaternion.z / norm⟩
    else quaternion

def heading (quaternion : Quaternion α) : α :=
  let unit := quaternion.normalized
  Scalar.atan2 (2.0 * (unit.w * unit.z - unit.x * unit.y))
    (1 - 2.0 * (unit.y * unit.y + unit.z * unit.z))

def rotate (quaternion : Quaternion α) (vector : Vec3 α) : Vec3 α :=
  let unit := quaternion.normalized
  let turned := (unit.mul ⟨0, vector.x, vector.y, vector.z⟩).mul unit.conjugate
  ⟨turned.x, turned.y, turned.z⟩

end Quaternion

end ManeuverRanking
