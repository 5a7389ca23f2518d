import ManeuverRanking.Metric.Series
import ManeuverRanking.Scalar.Order
import ManeuverRanking.Scalar.Series

/-!
Scores from zero to one for each criterion, and their weighted total. Metrics count less the later
they occur; each is clamped to its bounds and averaged over the steps.
-/

namespace ManeuverRanking

structure Bounds (α : Type) where
  lower : α
  upper : α

namespace Bounds

variable {α : Type} [Arithmetic α]

def penalize (bounds : Bounds α) (value : α) : α :=
  (bounds.upper - clip value bounds.lower bounds.upper) / (bounds.upper - bounds.lower)

def reward (bounds : Bounds α) (value : α) : α :=
  (clip value bounds.lower bounds.upper - bounds.lower) / (bounds.upper - bounds.lower)

end Bounds

structure ScoreSettings (α : Type) where
  decay : α
  bounds : PerCriterion (Bounds α)
  distanceUnit : α
  weights : PerCriterion α

structure Scores (α : Type) where
  each : PerCriterion α
  total : α

def Scores.toList {α : Type} (scores : Scores α) : List α :=
  scores.each.toList ++ [scores.total]

variable {α : Type} [Arithmetic α]

def Scores.undefined : Scores α :=
  ⟨⟨0 / 0, 0 / 0, 0 / 0, 0 / 0⟩, 0 / 0⟩

namespace ScoreSettings

def standard : ScoreSettings α where
  decay := 0.8
  bounds := ⟨⟨0.0, 0.5⟩, ⟨0.0, 0.5⟩, ⟨0.0, 20.0⟩, ⟨0.0, 5.0⟩⟩
  distanceUnit := 0.5
  weights := ⟨1.0, 1.0, 1.0, 1.0⟩

def fault? (settings : ScoreSettings α) : Option (Fault α) :=
  match Criterion.all.find? fun criterion =>
      !decide ((settings.bounds.get criterion).lower < (settings.bounds.get criterion).upper) with
  | some criterion =>
      let bounds := settings.bounds.get criterion
      some (.scoreBounds criterion bounds.lower bounds.upper)
  | none => if 0 < settings.distanceUnit then none else some .distanceUnit

end ScoreSettings

structure Scorer (α : Type) [Arithmetic α] where
  settings : ScoreSettings α
  sound : settings.fault? = none

namespace Scorer

def of (settings : ScoreSettings α) : Except (Fault α) (Scorer α) :=
  match sound : settings.fault? with
  | none => .ok ⟨settings, sound⟩
  | some fault => .error fault

def stepWeights (scorer : Scorer α) (steps : Nat) : List α :=
  (List.range steps).map (Arithmetic.pow scorer.settings.decay)

def decayed (scorer : Scorer α) (series : List α) : List α :=
  -- The weight of a step counts before an entry is clamped to its bounds.
  List.zipWith (fun weight value => weight * abs value) (scorer.stepWeights series.length) series

def scoreEach (scorer : Scorer α) (series : MetricSeries α) : PerCriterion α :=
  let bounds := scorer.settings.bounds
  { lateralComfort :=
      mean ((scorer.decayed series.lateralAcceleration).map bounds.lateralComfort.penalize)
    longitudinalComfort :=
      mean ((scorer.decayed series.longitudinalJerk).map bounds.longitudinalComfort.penalize)
    efficiency :=
      mean ((scorer.decayed series.travelDistance).map fun distance =>
        bounds.efficiency.reward (distance / scorer.settings.distanceUnit))
    safety := mean ((scorer.decayed series.timeToCollision).map bounds.safety.reward) }

def weigh (scorer : Scorer α) (each : PerCriterion α) : α :=
  sum (PerCriterion.zipWith (· * ·) scorer.settings.weights each).toList

def score (scorer : Scorer α) (series : MetricSeries α) : Except (Fault α) (Scores α) :=
  if series.steps = 0 then .error .emptySeries
  else
    let each := scorer.scoreEach series
    .ok ⟨each, scorer.weigh each⟩

end Scorer

end ManeuverRanking
