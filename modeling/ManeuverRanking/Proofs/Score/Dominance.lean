import Mathlib.Algebra.Order.Field.Basic
import ManeuverRanking.Proofs.Score
import ManeuverRanking.Proofs.Sorting.Stable

/-!
Dominance. A candidate that is at least as good as another one at every step scores at least as high
by every criterion, and is ranked behind it only at equal totals and if it was generated later.
-/

namespace ManeuverRanking

variable {K : Type} [Field K] [LinearOrder K]

attribute [local instance] Arithmetic.exact Comparable.exact

section Ranking

variable {β : Type} (key : β → K)

theorem sublist_of_sortDescending {first second : β} (tie : key first = key second)
    {values : List β} (ranked : [first, second].Sublist (sortDescending key values)) :
    [first, second].Sublist values := by
  let tied (value : β) : Bool := decide (key value = key second)
  have level : sortDescending key (values.filter tied) = values.filter tied := by
    rw [sortDescending_eq_mergeSort key (fun _ _ => Exact.isUndefined_eq_false _)
      fun _ _ _ _ => Iff.rfl]
    apply List.mergeSort_of_pairwise
    apply List.pairwise_of_forall_mem_list
    intro better inside worse inside'
    have same := of_decide_eq_true (List.mem_filter.mp inside).2
    have same' := of_decide_eq_true (List.mem_filter.mp inside').2
    exact decide_eq_true (same'.trans same.symm).le
  have among := ranked.filter tied
  rw [sortDescending_filter key tied fun _ _ => Exact.isUndefined_eq_false _, level] at among
  have both : [first, second].filter tied = [first, second] := by
    simp [tied, tie]
  rw [both] at among
  exact among.trans List.filter_sublist

end Ranking

def Criterion.Prefers : Criterion → K → K → Prop
  | .lateralComfort, left, right => |left| ≤ |right|
  | .longitudinalComfort, left, right => |left| ≤ |right|
  | .efficiency, left, right => |right| ≤ |left|
  | .safety, left, right => |right| ≤ |left|

structure MetricSeries.Dominates (better worse : MetricSeries K) : Prop where
  lateralAcceleration : List.Forall₂ (fun left right => |left| ≤ |right|)
    better.lateralAcceleration worse.lateralAcceleration
  longitudinalJerk : List.Forall₂ (fun left right => |left| ≤ |right|)
    better.longitudinalJerk worse.longitudinalJerk
  timeToCollision : List.Forall₂ (fun left right => |right| ≤ |left|)
    better.timeToCollision worse.timeToCollision
  travelDistance : List.Forall₂ (fun left right => |right| ≤ |left|)
    better.travelDistance worse.travelDistance

namespace MetricSeries.Dominates

variable {better worse : MetricSeries K} (dominates : better.Dominates worse)

include dominates

theorem judged (criterion : Criterion) :
    List.Forall₂ criterion.Prefers (better.judged criterion) (worse.judged criterion) := by
  cases criterion with
  | lateralComfort => exact dominates.lateralAcceleration
  | longitudinalComfort => exact dominates.longitudinalJerk
  | efficiency => exact dominates.travelDistance
  | safety => exact dominates.timeToCollision

theorem steps_eq : better.steps = worse.steps :=
  dominates.lateralAcceleration.length_eq

end MetricSeries.Dominates

theorem forall₂_mapIdx {β : Type} {test : β → β → Prop} {rating : Nat → β → K}
    (each : ∀ step left right, test left right → rating step right ≤ rating step left)
    {left right : List β} (along : List.Forall₂ test left right) :
    List.Forall₂ (· ≤ ·) (right.mapIdx rating) (left.mapIdx rating) := by
  induction along generalizing rating with
  | nil => exact .nil
  | cons first rest ih =>
      rw [List.mapIdx_cons, List.mapIdx_cons]
      exact .cons (each 0 _ _ first) (ih fun step left right => each (step + 1) left right)

namespace Scorer

variable [IsStrictOrderedRing K] (scorer : Scorer K)

theorem rateAt_le (decay : 0 ≤ scorer.settings.decay) {criterion : Criterion} (step : Nat)
    {left right : K} (prefers : criterion.Prefers left right) :
    scorer.rateAt criterion step right ≤ scorer.rateAt criterion step left := by
  have weighed {small large : K} (order : small ≤ large) :
      scorer.settings.decay ^ step * small ≤ scorer.settings.decay ^ step * large :=
    mul_le_mul_of_nonneg_left order (pow_nonneg decay step)
  have ordered := scorer.ordered criterion
  cases criterion with
  | lateralComfort => exact Bounds.penalize_antitone ordered (weighed prefers)
  | longitudinalComfort => exact Bounds.penalize_antitone ordered (weighed prefers)
  | efficiency =>
      exact Bounds.reward_monotone ordered
        (div_le_div_of_nonneg_right (weighed prefers) scorer.distanceUnit_pos.le)
  | safety => exact Bounds.reward_monotone ordered (weighed prefers)

theorem scoreEach_le (decay : 0 ≤ scorer.settings.decay) {better worse : MetricSeries K}
    (dominates : better.Dominates worse) (criterion : Criterion) :
    (scorer.scoreEach worse).get criterion ≤ (scorer.scoreEach better).get criterion := by
  rw [scoreEach_get_eq, scoreEach_get_eq, dominates.steps_eq]
  have each (step : Nat) (left right : K) (prefers : criterion.Prefers left right) :
      scorer.rateAt criterion step right ≤ scorer.rateAt criterion step left :=
    scorer.rateAt_le decay step prefers
  have rated := forall₂_mapIdx each (dominates.judged criterion)
  exact div_le_div_of_nonneg_right rated.sum_le_sum (Nat.cast_nonneg _)

theorem weigh_le (weights : ∀ criterion, 0 ≤ scorer.settings.weights.get criterion)
    {low high : PerCriterion K} (each : ∀ criterion, low.get criterion ≤ high.get criterion) :
    scorer.weigh low ≤ scorer.weigh high := by
  rw [weigh_eq, weigh_eq]
  apply List.sum_le_sum
  intro criterion _
  exact mul_le_mul_of_nonneg_left (each criterion) (weights criterion)

/-- Dominance shows in every score, in the total, and in every ranking. -/
theorem score_of_dominates (decay : 0 ≤ scorer.settings.decay)
    (weights : ∀ criterion, 0 ≤ scorer.settings.weights.get criterion)
    {better worse : MetricSeries K} (some : 0 < better.steps)
    (dominates : better.Dominates worse) :
    ∃ high low, scorer.score better = .ok high ∧ scorer.score worse = .ok low ∧
      (∀ criterion, low.each.get criterion ≤ high.each.get criterion) ∧ low.total ≤ high.total ∧
      ∀ (clock : Int) (scored : List (ScoredCandidate K)) (ahead behind : ScoredCandidate K),
        ahead.scores = low → behind.scores = high →
        [ahead, behind].Sublist (Ranking.ofScored clock scored).ranked →
          low.total = high.total ∧ [ahead, behind].Sublist scored := by
  have each := scorer.scoreEach_le decay dominates
  have total := scorer.weigh_le weights each
  refine ⟨_, _, scorer.score_eq_ok some, scorer.score_eq_ok (dominates.steps_eq ▸ some), each,
    total, ?_⟩
  intro clock scored ahead behind low high ranked
  have descends : behind.total ≤ ahead.total := by
    have sorted := (sortDescending_pairwise ScoredCandidate.total
      fun _ _ => Exact.isUndefined_eq_false _).sublist ranked
    exact List.rel_of_pairwise_cons sorted List.mem_cons_self
  have tie : ahead.total = behind.total := by
    apply le_antisymm _ descends
    rw [ScoredCandidate.total, ScoredCandidate.total, low, high]
    exact total
  refine ⟨?_, sublist_of_sortDescending ScoredCandidate.total tie ranked⟩
  rw [ScoredCandidate.total, ScoredCandidate.total, low, high] at tie
  exact tie

def smooth : MetricSeries ℚ where
  lateralAcceleration := [0, 0]
  longitudinalJerk := [0, 0]
  timeToCollision := [4, 5]
  travelDistance := [0, 3]
  jerk_length := rfl
  collision_length := rfl
  distance_length := rfl

def jolting : MetricSeries ℚ where
  lateralAcceleration := [1 / 4, -1]
  longitudinalJerk := [1, 0]
  timeToCollision := [-2, 5]
  travelDistance := [0, 2]
  jerk_length := rfl
  collision_length := rfl
  distance_length := rfl

theorem smooth_dominates : smooth.Dominates jolting := by
  constructor <;> simp [smooth, jolting] <;> norm_num

theorem smooth_score_of_dominates :
    0 ≤ standard.settings.decay ∧ (∀ criterion, 0 ≤ standard.settings.weights.get criterion) ∧
    0 < smooth.steps ∧ smooth.Dominates jolting ∧
    ∃ high low, standard.score smooth = .ok high ∧ standard.score jolting = .ok low ∧
      (∀ criterion, low.each.get criterion ≤ high.each.get criterion) ∧ low.total ≤ high.total ∧
      ∀ (clock : Int) (scored : List (ScoredCandidate ℚ)) (ahead behind : ScoredCandidate ℚ),
        ahead.scores = low → behind.scores = high →
        [ahead, behind].Sublist (Ranking.ofScored clock scored).ranked →
          low.total = high.total ∧ [ahead, behind].Sublist scored := by
  have decay : 0 ≤ standard.settings.decay := by
    norm_num [standard, ScoreSettings.standard]
  have weights : ∀ criterion, 0 ≤ standard.settings.weights.get criterion := by
    intro criterion
    cases criterion <;> norm_num [standard, ScoreSettings.standard, PerCriterion.get]
  exact ⟨decay, weights, Nat.two_pos, smooth_dominates,
    standard.score_of_dominates decay weights Nat.two_pos smooth_dominates⟩

end Scorer

end ManeuverRanking
