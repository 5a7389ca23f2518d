import ManeuverRanking.Record

/-!
Candidates: ego motions over the horizon, each with its origin, its data and the tracked objects it
is judged against.
-/

namespace ManeuverRanking

inductive Origin where
  | executed
  | current
  | sampled
  deriving DecidableEq, Repr

def Origin.all : List Origin :=
  [.executed, .current, .sampled]

def Origin.name : Origin → String
  | .executed => "executed"
  | .current => "self"
  | .sampled => "sampled"

def Origin.ofName? (text : String) : Option Origin :=
  Origin.all.find? fun origin => origin.name = text

structure DrivenMotion (α : Type) where
  odometry : List (Odometry α)
  acceleration : List (AccelerationReport α)
  steering : List (SteeringReport α)

inductive Motion (α : Type) where
  | driven (motion : DrivenMotion α)
  | planned (points : List (PlanPoint α))
  | unknown (kind : String)

structure Candidate (α : Type) where
  origin : Origin
  motion : Motion α
  objects : List (TrackedObjects α)
  generation : Nat

end ManeuverRanking
