import ManeuverRanking.Horizon
import ManeuverRanking.Plan.Interpolation

/-!
The walk along a plan from the ego position. Each step moves on by the speed and acceleration of
the plan at the point reached.
-/

namespace ManeuverRanking

variable {α : Type} [Scalar α]

structure Waypoint (α : Type) where
  arc : α
  point : PlanPoint α

def PlanPoint.advance (point : PlanPoint α) (interval : α) : α :=
  point.speed * interval + 0.5 * point.acceleration * interval * interval

def walk (points : List (PlanPoint α)) (progress : List α) (interval arc : α) :
    Nat → Except (Fault α) (List (Waypoint α))
  | 0 => .ok []
  | steps + 1 => do
      let point ← planPointAt points progress arc
      -- The arc length may run past the plan; the plan point is then that of its end.
      let later ← walk points progress interval (arc + point.advance interval) steps
      return ⟨arc, point⟩ :: later

def timedFrom (interval : α) (step : Nat) : List (Waypoint α) → List (PlanPoint α)
  | [] => []
  | stop :: rest =>
      { stop.point with time := ofInt step * interval } :: timedFrom interval (step + 1) rest

theorem length_timedFrom (interval : α) (step : Nat) (stops : List (Waypoint α)) :
    (timedFrom interval step stops).length = stops.length := by
  induction stops generalizing step with
  | nil => rfl
  | cons stop rest ih => simp [timedFrom, ih]

def Plan.walkFrom (plan : Plan α) (pose : Pose α) (horizon : Horizon α) :
    Except (Fault α) (List (Waypoint α)) :=
  match plan.points with
  | [] => .error .nothingToResample
  | _ => do
      let arc ← planArcOf plan.points pose
      walk plan.points (planProgress plan.points) horizon.interval arc horizon.steps

def Plan.resample (plan : Plan α) (odometry : Odometry α) (horizon : Horizon α) :
    Except (Fault α) (List (PlanPoint α)) := do
  return timedFrom horizon.interval 0 (← plan.walkFrom odometry.pose horizon)

end ManeuverRanking
