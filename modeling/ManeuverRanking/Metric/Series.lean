import ManeuverRanking.Fault

/-!
The raw metrics of one candidate: four series with one entry for each step.
-/

namespace ManeuverRanking

structure MetricSeries (α : Type) where
  lateralAcceleration : List α
  longitudinalJerk : List α
  timeToCollision : List α
  travelDistance : List α
  jerk_length : longitudinalJerk.length = lateralAcceleration.length
  collision_length : timeToCollision.length = lateralAcceleration.length
  distance_length : travelDistance.length = lateralAcceleration.length

namespace MetricSeries

variable {α : Type}

def insertLength (length : Nat) : List Nat → List Nat
  | [] => [length]
  | next :: rest =>
      if length < next then length :: next :: rest
      else if length = next then next :: rest
      else next :: insertLength length rest

def distinctLengths (lengths : List Nat) : List Nat :=
  lengths.foldr insertLength []

def of (lateral jerk collision distance : List α) : Except (Fault α) (MetricSeries α) :=
  if equal : jerk.length = lateral.length ∧ collision.length = lateral.length
      ∧ distance.length = lateral.length then
    .ok ⟨lateral, jerk, collision, distance, equal.1, equal.2.1, equal.2.2⟩
  else
    .error (.seriesLengths
      (distinctLengths [lateral.length, jerk.length, collision.length, distance.length]))

def steps (series : MetricSeries α) : Nat :=
  series.lateralAcceleration.length

def rows (series : MetricSeries α) : List (List α) :=
  [series.lateralAcceleration, series.longitudinalJerk, series.timeToCollision,
    series.travelDistance]

end MetricSeries

end ManeuverRanking
