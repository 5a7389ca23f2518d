import ManeuverRanking.Scalar.Rounding

/-!
The evaluation horizon: a positive number of steps at a positive time interval.
-/

namespace ManeuverRanking

def nanosecondsPerSecond : Int := 1000000000

/-- A time span in seconds as whole nanoseconds, cut toward zero. -/
def nanoseconds {α : Type} [Scalar α] (seconds : α) : Except (Fault α) Int :=
  truncate (seconds * ofInt nanosecondsPerSecond)

structure Horizon (α : Type) [Arithmetic α] where
  steps : Nat
  interval : α
  steps_pos : 0 < steps
  interval_pos : 0 < interval

namespace Horizon

variable {α : Type} [Scalar α]

def of (steps : Int) (interval : α) : Except (Fault α) (Horizon α) :=
  if stepsPos : 0 < steps then
    if intervalPos : 0 < interval then
      .ok ⟨steps.toNat, interval, by omega, intervalPos⟩
    else .error .horizonInterval
  else .error .horizonSteps

def duration (horizon : Horizon α) : Except (Fault α) α := do
  return (← nearest horizon.steps) * horizon.interval

/-- The time of a step after the horizon start in nanoseconds, rounded to an even neighbour. -/
def stepOffset (horizon : Horizon α) (step : Int) : Except (Fault α) Int :=
  roundEven (ofInt nanosecondsPerSecond * horizon.interval * ofInt step)

end Horizon

end ManeuverRanking
