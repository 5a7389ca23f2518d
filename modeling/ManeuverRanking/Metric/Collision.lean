import ManeuverRanking.Record
import ManeuverRanking.Scalar.Order

/-!
Time to collision: the distance to an object over the speed at which it closes in along the line of
sight, the least over all objects.
-/

namespace ManeuverRanking

def noCollision {α : Type} [Arithmetic α] : α :=
  ofInt ((((1 <<< 53) - 1) <<< 971 : Nat) : Int)

variable {α : Type} [Scalar α]

def leastClosingSpeed : α := 1e-3

inductive Approach (α : Type) where
  | contact
  | receding
  | closing (time : α)

namespace Approach

/-- The approach of an object. Both velocities count by their part along the line of sight; that of
the ego vehicle is given in the map frame. -/
def ofObject (pose : Pose α) (velocity : List α) (object : TrackedObject α) :
    Except (Fault α) (Approach α) := do
  let sight := object.pose.position.sub pose.position
  let distance := sight.norm
  if sameAs distance 0 then return contact
  else
    let bearing := sight.divide distance
    let objectVelocity ← object.pose.toMap object.velocity
    let egoVelocity ← Vec3.ofList velocity
    let closingSpeed := bearing.dot egoVelocity - bearing.dot objectVelocity
    return if closingSpeed ≤ leastClosingSpeed then receding else closing (distance / closingSpeed)

end Approach

def soonest (pose : Pose α) (velocity : List α) (found : Option α) :
    List (TrackedObject α) → Except (Fault α) α
  | [] => .ok (found.getD noCollision)
  | object :: rest => do
      match ← Approach.ofObject pose velocity object with
      -- Contact ends the search, whatever the later objects hold.
      | .contact => return 0
      | .receding => soonest pose velocity found rest
      | .closing time =>
          soonest pose velocity (some (found.elim time fun least => firstOrSmaller least time)) rest

def timeToCollision (objects : List (TrackedObject α)) (pose : Pose α) (velocity : List α) :
    Except (Fault α) α :=
  soonest pose velocity none objects

end ManeuverRanking
