import Mathlib.Algebra.Order.Field.Basic
import Mathlib.Algebra.Order.BigOperators.Group.List
import Mathlib.Algebra.Order.Field.Rat
import Mathlib.Tactic.NormNum
import ManeuverRanking.Proofs.Scalar.Ordered
import ManeuverRanking.Score

/-!
Scores criterion by criterion. Each criterion is judged by one series; the score of a series is the
mean of the ratings of its entries, and an entry is rated by its size times the weight of its step.
Over an ordered field ratings are monotone: downward for comfort, upward for efficiency and safety.
-/

namespace ManeuverRanking

section

variable {α : Type} [Arithmetic α]

theorem ScoreSettings.fault?_eq_none_iff (settings : ScoreSettings α) :
    settings.fault? = none ↔
      (∀ criterion, (settings.bounds.get criterion).lower < (settings.bounds.get criterion).upper) ∧
        0 < settings.distanceUnit := by
  unfold fault?
  split
  · rename_i criterion found
    have failed := List.find?_some found
    simp only [Bool.not_eq_true', decide_eq_false_iff_not] at failed
    simp only [reduceCtorEq, false_iff, not_and]
    exact fun ordered => absurd (ordered criterion) failed
  · rename_i none
    have ordered : ∀ criterion,
        (settings.bounds.get criterion).lower < (settings.bounds.get criterion).upper := by
      intro criterion
      have passed := List.find?_eq_none.mp none criterion (by cases criterion <;> decide)
      simpa using passed
    simp [ordered]

def MetricSeries.judged {α : Type} (series : MetricSeries α) : Criterion → List α
  | .lateralComfort => series.lateralAcceleration
  | .longitudinalComfort => series.longitudinalJerk
  | .efficiency => series.travelDistance
  | .safety => series.timeToCollision

theorem MetricSeries.length_judged {α : Type} (series : MetricSeries α) (criterion : Criterion) :
    (series.judged criterion).length = series.steps := by
  cases criterion with
  | lateralComfort => rfl
  | longitudinalComfort => exact series.jerk_length
  | efficiency => exact series.distance_length
  | safety => exact series.collision_length

namespace Scorer

variable (scorer : Scorer α)

theorem ordered (criterion : Criterion) :
    (scorer.settings.bounds.get criterion).lower < (scorer.settings.bounds.get criterion).upper :=
  (scorer.settings.fault?_eq_none_iff.mp scorer.sound).1 criterion

theorem distanceUnit_pos : 0 < scorer.settings.distanceUnit :=
  (scorer.settings.fault?_eq_none_iff.mp scorer.sound).2

def rate : Criterion → α → α
  | .lateralComfort => scorer.settings.bounds.lateralComfort.penalize
  | .longitudinalComfort => scorer.settings.bounds.longitudinalComfort.penalize
  | .efficiency => fun distance =>
      scorer.settings.bounds.efficiency.reward (distance / scorer.settings.distanceUnit)
  | .safety => scorer.settings.bounds.safety.reward

theorem scoreEach_get (series : MetricSeries α) (criterion : Criterion) :
    (scorer.scoreEach series).get criterion =
      mean ((scorer.decayed (series.judged criterion)).map (scorer.rate criterion)) := by
  cases criterion <;> rfl

theorem score_eq_ok {series : MetricSeries α} (some : 0 < series.steps) :
    scorer.score series =
      .ok ⟨scorer.scoreEach series, scorer.weigh (scorer.scoreEach series)⟩ :=
  if_neg (Nat.ne_of_gt some)

end Scorer

end

section Exact

variable {K : Type} [Field K] [LinearOrder K]

attribute [local instance] Arithmetic.exact

theorem Scorer.weigh_eq (scorer : Scorer K) (each : PerCriterion K) :
    scorer.weigh each =
      (Criterion.all.map fun criterion =>
        scorer.settings.weights.get criterion * each.get criterion).sum := by
  rw [weigh, Exact.sum_eq]
  rfl

variable [IsStrictOrderedRing K]

namespace Bounds

variable {bounds : Bounds K}

theorem penalize_antitone (ordered : bounds.lower < bounds.upper) : Antitone bounds.penalize := by
  intro small large increases
  unfold penalize
  rw [Exact.clip_eq, Exact.clip_eq]
  have width : 0 ≤ bounds.upper - bounds.lower := (sub_pos.mpr ordered).le
  gcongr

theorem reward_monotone (ordered : bounds.lower < bounds.upper) : Monotone bounds.reward := by
  intro small large increases
  unfold reward
  rw [Exact.clip_eq, Exact.clip_eq]
  have width : 0 ≤ bounds.upper - bounds.lower := (sub_pos.mpr ordered).le
  gcongr

end Bounds

namespace Scorer

variable (scorer : Scorer K)

def rateAt (criterion : Criterion) (step : Nat) (value : K) : K :=
  scorer.rate criterion (scorer.settings.decay ^ step * |value|)

theorem map_rate_decayed (criterion : Criterion) (series : List K) :
    (scorer.decayed series).map (scorer.rate criterion) =
      series.mapIdx (scorer.rateAt criterion) := by
  apply List.ext_getElem
  · simp [decayed, stepWeights]
  · intro step inside inside'
    simp only [decayed, stepWeights, rateAt, List.getElem_map, List.getElem_mapIdx,
      List.getElem_zipWith, List.getElem_range, Exact.abs_eq]
    rfl

theorem scoreEach_get_eq (series : MetricSeries K) (criterion : Criterion) :
    (scorer.scoreEach series).get criterion =
      ((series.judged criterion).mapIdx (scorer.rateAt criterion)).sum / (series.steps : K) := by
  rw [scoreEach_get, map_rate_decayed, Exact.mean_eq, List.length_mapIdx, series.length_judged]

def standard : Scorer ℚ where
  settings := .standard
  sound := by
    rw [ScoreSettings.fault?_eq_none_iff]
    constructor
    · intro criterion
      cases criterion <;> norm_num [ScoreSettings.standard, PerCriterion.get]
    · norm_num [ScoreSettings.standard]

end Scorer

end Exact

end ManeuverRanking
