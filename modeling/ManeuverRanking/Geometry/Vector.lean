import ManeuverRanking.Fault
import ManeuverRanking.Scalar

/-!
Spatial vectors. Products and sums are taken component by component from the left.
-/

namespace ManeuverRanking

structure Vec3 (α : Type) where
  x : α
  y : α
  z : α
  deriving Repr

namespace Vec3

variable {α : Type} [Scalar α]

def zero : Vec3 α :=
  ⟨0, 0, 0⟩

def ofList : List α → Except (Fault α) (Vec3 α)
  | [x, y, z] => .ok ⟨x, y, z⟩
  | components => .error (.vectorLength components.length)

def toList (vector : Vec3 α) : List α :=
  [vector.x, vector.y, vector.z]

/-- A velocity is given by three components; none at all stand for rest. -/
def ofVelocity : List α → Except (Fault α) (Vec3 α)
  | [] => .ok zero
  | components => ofList components

def sub (left right : Vec3 α) : Vec3 α :=
  ⟨left.x - right.x, left.y - right.y, left.z - right.z⟩

def divide (vector : Vec3 α) (divisor : α) : Vec3 α :=
  ⟨vector.x / divisor, vector.y / divisor, vector.z / divisor⟩

def dot (left right : Vec3 α) : α :=
  left.x * right.x + left.y * right.y + left.z * right.z

def norm (vector : Vec3 α) : α :=
  Scalar.sqrt (vector.dot vector)

def planarNorm (vector : Vec3 α) : α :=
  Scalar.sqrt (vector.x * vector.x + vector.y * vector.y)

end Vec3

end ManeuverRanking
