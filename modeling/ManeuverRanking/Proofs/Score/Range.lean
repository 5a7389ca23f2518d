import Mathlib.Algebra.Order.Field.Basic
import ManeuverRanking.Proofs.Score

/-!
The range of scores. Clamping bounds every rating, whatever the decay makes of an entry, so that each
score lies between zero and one. The total then lies between what it is with full scores for the
negative weights alone and with full scores for the positive ones alone.
-/

namespace ManeuverRanking

variable {K : Type} [Field K] [LinearOrder K]

attribute [local instance] Arithmetic.exact

def IsShare (value : K) : Prop :=
  0 ≤ value ∧ value ≤ 1

theorem Bounds.clip_within {bounds : Bounds K} (ordered : bounds.lower < bounds.upper) (value : K) :
    bounds.lower ≤ clip value bounds.lower bounds.upper ∧
      clip value bounds.lower bounds.upper ≤ bounds.upper := by
  rw [Exact.clip_eq]
  exact ⟨le_min (le_max_right ..) ordered.le, min_le_right ..⟩

variable [IsStrictOrderedRing K]

namespace Bounds

variable {bounds : Bounds K}

theorem isShare_penalize (ordered : bounds.lower < bounds.upper) (value : K) :
    IsShare (bounds.penalize value) := by
  obtain ⟨low, high⟩ := clip_within ordered value
  have width := sub_pos.mpr ordered
  constructor
  · exact div_nonneg (sub_nonneg.mpr high) width.le
  · exact (div_le_one width).mpr (sub_le_sub_left low _)

theorem isShare_reward (ordered : bounds.lower < bounds.upper) (value : K) :
    IsShare (bounds.reward value) := by
  obtain ⟨low, high⟩ := clip_within ordered value
  have width := sub_pos.mpr ordered
  constructor
  · exact div_nonneg (sub_nonneg.mpr low) width.le
  · exact (div_le_one width).mpr (sub_le_sub_right high _)

end Bounds

theorem sum_shares {values : List K} (shares : ∀ value ∈ values, IsShare value) :
    0 ≤ values.sum ∧ values.sum ≤ values.length := by
  induction values with
  | nil => simp
  | cons value rest ih =>
      obtain ⟨⟨low, high⟩, later⟩ := List.forall_mem_cons.mp shares
      obtain ⟨above, below⟩ := ih later
      rw [List.sum_cons, List.length_cons, Nat.cast_succ]
      constructor <;> linarith

theorem isShare_average {values : List K} (some : 0 < values.length)
    (shares : ∀ value ∈ values, IsShare value) : IsShare (values.sum / (values.length : K)) := by
  obtain ⟨above, below⟩ := sum_shares shares
  have count : (0 : K) < values.length := Nat.cast_pos.mpr some
  exact ⟨div_nonneg above count.le, (div_le_one count).mpr below⟩

theorem sum_weighed_between {β : Type} (weight share : β → K) (shares : ∀ entry, IsShare (share entry))
    (entries : List β) :
    ((entries.map weight).filter fun value => decide (value < 0)).sum ≤
        (entries.map fun entry => weight entry * share entry).sum ∧
      (entries.map fun entry => weight entry * share entry).sum ≤
        ((entries.map weight).filter fun value => decide (0 < value)).sum := by
  induction entries with
  | nil => simp
  | cons entry rest ih =>
      obtain ⟨above, below⟩ := ih
      obtain ⟨low, high⟩ := shares entry
      simp only [List.map_cons, List.filter_cons, List.sum_cons, decide_eq_true_eq]
      rcases lt_trichotomy (weight entry) 0 with negative | none | positive
      · have least := mul_le_mul_of_nonpos_left high negative.le
        have most := mul_nonpos_of_nonpos_of_nonneg negative.le low
        rw [if_pos negative, if_neg negative.not_gt, List.sum_cons]
        constructor <;> linarith
      · rw [if_neg none.not_lt, if_neg none.not_gt, none, zero_mul, zero_add]
        exact ⟨above, below⟩
      · have least := mul_nonneg positive.le low
        have most := mul_le_mul_of_nonneg_left high positive.le
        rw [if_neg positive.not_gt, if_pos positive, List.sum_cons]
        constructor <;> linarith

namespace Scorer

variable (scorer : Scorer K)

theorem isShare_rate (criterion : Criterion) (value : K) : IsShare (scorer.rate criterion value) := by
  have ordered := scorer.ordered criterion
  cases criterion with
  | lateralComfort => exact Bounds.isShare_penalize ordered value
  | longitudinalComfort => exact Bounds.isShare_penalize ordered value
  | efficiency => exact Bounds.isShare_reward ordered _
  | safety => exact Bounds.isShare_reward ordered value

theorem isShare_scoreEach {series : MetricSeries K} (some : 0 < series.steps)
    (criterion : Criterion) : IsShare ((scorer.scoreEach series).get criterion) := by
  have count : ((series.judged criterion).mapIdx (scorer.rateAt criterion)).length = series.steps := by
    rw [List.length_mapIdx, series.length_judged]
  rw [scoreEach_get_eq, ← count]
  apply isShare_average (count ▸ some)
  intro value member
  obtain ⟨step, inside, rfl⟩ := List.mem_mapIdx.mp member
  exact scorer.isShare_rate criterion _

/-- Whatever the decay, the weights and the entries of the series, each score lies between zero and
one, and the total between the sum of the negative weights and that of the positive ones. -/
theorem score_in_range {series : MetricSeries K} (some : 0 < series.steps) :
    ∃ scores, scorer.score series = .ok scores ∧
      (∀ criterion, 0 ≤ scores.each.get criterion ∧ scores.each.get criterion ≤ 1) ∧
      (scorer.settings.weights.toList.filter fun weight => decide (weight < 0)).sum ≤ scores.total ∧
      scores.total ≤ (scorer.settings.weights.toList.filter fun weight => decide (0 < weight)).sum := by
  have shares := scorer.isShare_scoreEach some
  refine ⟨_, scorer.score_eq_ok some, shares, ?_⟩
  rw [scorer.weigh_eq]
  exact sum_weighed_between _ _ shares Criterion.all

def alternating : Scorer ℚ where
  settings :=
    { decay := -2
      bounds := ⟨⟨-1, 1⟩, ⟨-3, -1⟩, ⟨0, 20⟩, ⟨-5, 5⟩⟩
      distanceUnit := 1 / 2
      weights := ⟨-1, 2, 0, -3⟩ }
  sound := by decide +kernel

def swaying : MetricSeries ℚ where
  lateralAcceleration := [1, -1, 0]
  longitudinalJerk := [-2, 3, 0]
  timeToCollision := [2, -1, noCollision]
  travelDistance := [0, 4, -9]
  jerk_length := rfl
  collision_length := rfl
  distance_length := rfl

theorem swaying_score_in_range : 0 < swaying.steps ∧
    ∃ scores, alternating.score swaying = .ok scores ∧
      (∀ criterion, 0 ≤ scores.each.get criterion ∧ scores.each.get criterion ≤ 1) ∧
      -4 ≤ scores.total ∧ scores.total ≤ 2 := by
  have negative : (alternating.settings.weights.toList.filter fun weight => decide (weight < 0)).sum =
      -4 := by
    decide +kernel
  have positive : (alternating.settings.weights.toList.filter fun weight => decide (0 < weight)).sum =
      2 := by
    decide +kernel
  have range := alternating.score_in_range (show 0 < swaying.steps from Nat.succ_pos 2)
  rw [negative, positive] at range
  exact ⟨Nat.succ_pos 2, range⟩

end Scorer

end ManeuverRanking
