import Mathlib.Algebra.Order.Field.Basic
import ManeuverRanking.Metric.Collision
import ManeuverRanking.Proofs.Score

/-!
What one bad step costs, by its place in the horizon. The weight of a step makes its metric smaller.
A late discomfort therefore costs at most as much as an early one, but a late closeness to others
costs at least as much, as long as the time without collision still counts in full at its step.
-/

namespace ManeuverRanking

variable {K : Type} [Field K] [LinearOrder K]

attribute [local instance] Arithmetic.exact

def disturbed (ideal : K) (steps place : Nat) (value : K) : List K :=
  (List.replicate steps ideal).set place value

theorem sum_mapIdx_disturbed (rating : Nat → K → K) (ideal value : K) {steps place : Nat}
    (inside : place < steps) :
    ((disturbed ideal steps place value).mapIdx rating).sum =
      ((List.replicate steps ideal).mapIdx rating).sum - (rating place ideal - rating place value) := by
  have within : place < ((List.replicate steps ideal).mapIdx rating).length := by
    simpa using inside
  rw [disturbed, List.mapIdx_set, List.sum_set', dif_pos within, List.getElem_mapIdx,
    List.getElem_replicate]
  ring

variable [IsStrictOrderedRing K]

namespace Bounds

variable {bounds : Bounds K}

theorem reward_of_upper_le (ordered : bounds.lower < bounds.upper) {value : K}
    (full : bounds.upper ≤ value) : bounds.reward value = 1 := by
  unfold reward
  rw [Exact.clip_eq, max_eq_left (ordered.le.trans full), min_eq_right full]
  exact div_self (sub_pos.mpr ordered).ne'

theorem reward_eq_iff (ordered : bounds.lower < bounds.upper) {small large : K}
    (above : bounds.lower ≤ small) (increases : small ≤ large) :
    bounds.reward small = bounds.reward large ↔ bounds.upper ≤ small ∨ small = large := by
  unfold reward
  rw [Exact.clip_eq, Exact.clip_eq, max_eq_left above, max_eq_left (above.trans increases),
    div_left_inj' (sub_pos.mpr ordered).ne', sub_left_inj]
  rcases le_total bounds.upper small with full | short
  · simp [min_eq_right (full.trans increases), full]
  · rcases le_total bounds.upper large with full | short'
    · rw [min_eq_left short, min_eq_right full]
      constructor
      · intro same
        exact .inl same.ge
      · rintro (same | rfl)
        · exact le_antisymm short same
        · exact le_antisymm short full
    · rw [min_eq_left short, min_eq_left short']
      constructor
      · exact .inr
      · rintro (same | same)
        · exact le_antisymm increases (short'.trans same)
        · exact same

end Bounds

namespace Scorer

variable (scorer : Scorer K)

def cost (criterion : Criterion) (ideal : K) (step : Nat) (value : K) : K :=
  scorer.rateAt criterion step ideal - scorer.rateAt criterion step value

theorem weighed_le (decay : 0 ≤ scorer.settings.decay) (decay' : scorer.settings.decay ≤ 1)
    {early late : Nat} (earlier : early < late) (value : K) :
    scorer.settings.decay ^ late * |value| ≤ scorer.settings.decay ^ early * |value| :=
  mul_le_mul_of_nonneg_right (pow_le_pow_of_le_one decay decay' earlier.le) (abs_nonneg value)

theorem noCollision_nonneg : (0 : K) ≤ noCollision :=
  Int.cast_nonneg (Int.natCast_nonneg _)

theorem cost_safety_eq {step : Nat}
    (full : scorer.settings.bounds.safety.upper ≤ scorer.settings.decay ^ step * noCollision)
    (value : K) :
    scorer.cost .safety noCollision step value =
      1 - scorer.settings.bounds.safety.reward (scorer.settings.decay ^ step * |value|) := by
  have reached : scorer.rateAt .safety step noCollision = 1 := by
    rw [rateAt, abs_of_nonneg noCollision_nonneg]
    exact Bounds.reward_of_upper_le (scorer.ordered .safety) full
  rw [cost, reached]
  rfl

section Late

variable {criterion : Criterion} {ideal value : K} {steps early late : Nat}
  {first second : MetricSeries K}

theorem scoreEach_le_iff (early_lt : early < steps) (late_lt : late < steps)
    (firstSteps : first.steps = steps) (secondSteps : second.steps = steps)
    (disturbedEarly : first.judged criterion = disturbed ideal steps early value)
    (disturbedLate : second.judged criterion = disturbed ideal steps late value) :
    (scorer.scoreEach first).get criterion ≤ (scorer.scoreEach second).get criterion ↔
      scorer.cost criterion ideal late value ≤ scorer.cost criterion ideal early value := by
  have positive : (0 : K) < steps := Nat.cast_pos.mpr (Nat.zero_lt_of_lt late_lt)
  rw [scoreEach_get_eq, scoreEach_get_eq, firstSteps, secondSteps, disturbedEarly, disturbedLate,
    sum_mapIdx_disturbed _ _ _ early_lt, sum_mapIdx_disturbed _ _ _ late_lt,
    div_le_div_iff_of_pos_right positive, sub_le_sub_iff_left]
  rfl

variable (decay : 0 ≤ scorer.settings.decay) (decay' : scorer.settings.decay ≤ 1)
  (earlier : early < late) (inside : late < steps) (firstSteps : first.steps = steps)
  (secondSteps : second.steps = steps)

include decay decay' earlier inside firstSteps secondSteps

theorem scoreEach_le_of_antitone (comfort : Antitone (scorer.rate criterion))
    (disturbedEarly : first.judged criterion = disturbed 0 steps early value)
    (disturbedLate : second.judged criterion = disturbed 0 steps late value) :
    (scorer.scoreEach first).get criterion ≤ (scorer.scoreEach second).get criterion := by
  rw [scorer.scoreEach_le_iff (earlier.trans inside) inside firstSteps secondSteps disturbedEarly
    disturbedLate]
  have still (step : Nat) : scorer.rateAt criterion step 0 = scorer.rate criterion 0 := by
    rw [rateAt, abs_zero, mul_zero]
  rw [cost, cost, still, still]
  exact sub_le_sub_left (comfort (scorer.weighed_le decay decay' earlier value)) _

theorem safety_of_late (grounded : scorer.settings.bounds.safety.lower = 0)
    (full : scorer.settings.bounds.safety.upper ≤ scorer.settings.decay ^ late * noCollision)
    (disturbedEarly : first.judged .safety = disturbed noCollision steps early value)
    (disturbedLate : second.judged .safety = disturbed noCollision steps late value) :
    (scorer.scoreEach second).safety ≤ (scorer.scoreEach first).safety ∧
      ((scorer.scoreEach second).safety = (scorer.scoreEach first).safety ↔
        scorer.settings.bounds.safety.upper ≤ scorer.settings.decay ^ late * |value| ∨
          scorer.settings.decay ^ late * |value| = scorer.settings.decay ^ early * |value|) := by
  have inside' := earlier.trans inside
  have weighed := scorer.weighed_le decay decay' earlier
  have full' : scorer.settings.bounds.safety.upper ≤
      scorer.settings.decay ^ early * noCollision := by
    have weighs := weighed noCollision
    rw [abs_of_nonneg noCollision_nonneg] at weighs
    exact full.trans weighs
  have rises := scorer.scoreEach_le_iff inside' inside firstSteps secondSteps disturbedEarly
    disturbedLate
  have falls := scorer.scoreEach_le_iff inside inside' secondSteps firstSteps disturbedLate
    disturbedEarly
  rw [scorer.cost_safety_eq full, scorer.cost_safety_eq full', sub_le_sub_iff_left] at rises falls
  have rewarded := Bounds.reward_monotone (scorer.ordered .safety) (weighed value)
  -- With a lower bound of zero no value lies below the bounds, where rewards would be equal too.
  have above : scorer.settings.bounds.safety.lower ≤ scorer.settings.decay ^ late * |value| := by
    rw [grounded]
    exact mul_nonneg (pow_nonneg decay late) (abs_nonneg value)
  refine ⟨falls.mpr rewarded,
    Iff.trans ?_ (Bounds.reward_eq_iff (scorer.ordered .safety) above (weighed value))⟩
  constructor
  · intro same
    exact le_antisymm rewarded (rises.mp same.ge)
  · intro same
    exact le_antisymm (falls.mpr rewarded) (rises.mpr same.ge)

end Late

/-- A bad value late in the horizon against the same one early. Discomfort costs at most as much when
it is late. Closeness to others costs at least as much, where the time without collision counts in
full at the late step, and equally much only if it is out of the bounds or not weighed less. -/
theorem score_of_late (decay : 0 ≤ scorer.settings.decay) (decay' : scorer.settings.decay ≤ 1)
    (grounded : scorer.settings.bounds.safety.lower = 0) {steps early late : Nat}
    (earlier : early < late) (inside : late < steps) (value : K) {first second : MetricSeries K}
    (firstSteps : first.steps = steps) (secondSteps : second.steps = steps) :
    ∃ before after, scorer.score first = .ok before ∧ scorer.score second = .ok after ∧
      (first.lateralAcceleration = disturbed 0 steps early value →
        second.lateralAcceleration = disturbed 0 steps late value →
        before.each.lateralComfort ≤ after.each.lateralComfort) ∧
      (first.longitudinalJerk = disturbed 0 steps early value →
        second.longitudinalJerk = disturbed 0 steps late value →
        before.each.longitudinalComfort ≤ after.each.longitudinalComfort) ∧
      (first.timeToCollision = disturbed noCollision steps early value →
        second.timeToCollision = disturbed noCollision steps late value →
        (before.each.safety ≤ after.each.safety ↔
          scorer.cost .safety noCollision late value ≤
            scorer.cost .safety noCollision early value) ∧
        (scorer.settings.bounds.safety.upper ≤ scorer.settings.decay ^ late * noCollision →
          after.each.safety ≤ before.each.safety ∧
          (after.each.safety = before.each.safety ↔
            scorer.settings.bounds.safety.upper ≤ scorer.settings.decay ^ late * |value| ∨
              scorer.settings.decay ^ late * |value| =
                scorer.settings.decay ^ early * |value|))) := by
  have some := Nat.zero_lt_of_lt inside
  refine ⟨_, _, scorer.score_eq_ok (firstSteps ▸ some), scorer.score_eq_ok (secondSteps ▸ some),
    ?_, ?_, ?_⟩
  · have comfort : Antitone (scorer.rate .lateralComfort) :=
      Bounds.penalize_antitone (scorer.ordered .lateralComfort)
    exact scorer.scoreEach_le_of_antitone decay decay' earlier inside firstSteps secondSteps comfort
  · have comfort : Antitone (scorer.rate .longitudinalComfort) :=
      Bounds.penalize_antitone (scorer.ordered .longitudinalComfort)
    exact scorer.scoreEach_le_of_antitone decay decay' earlier inside firstSteps secondSteps comfort
  · intro disturbedEarly disturbedLate
    have told : first.judged .safety = disturbed noCollision steps early value := disturbedEarly
    have told' : second.judged .safety = disturbed noCollision steps late value := disturbedLate
    constructor
    · exact scorer.scoreEach_le_iff (earlier.trans inside) inside firstSteps secondSteps told told'
    · intro full
      exact scorer.safety_of_late decay decay' earlier inside firstSteps secondSteps grounded full
        told told'

def badAt (discomfort : ℚ) (place : Nat) : MetricSeries ℚ where
  lateralAcceleration := disturbed 0 2 place discomfort
  longitudinalJerk := disturbed 0 2 place discomfort
  timeToCollision := disturbed noCollision 2 place 1
  travelDistance := [0, 0]
  jerk_length := rfl
  collision_length := by simp [disturbed]
  distance_length := by simp [disturbed]

theorem badAt_score_of_late :
    0 ≤ standard.settings.decay ∧ standard.settings.decay ≤ 1 ∧
    standard.settings.bounds.safety.lower = 0 ∧ 0 < 1 ∧ 1 < 2 ∧
    (badAt 1 0).steps = 2 ∧ (badAt 1 1).steps = 2 ∧
    standard.settings.bounds.safety.upper ≤ standard.settings.decay ^ 1 * noCollision ∧
    ∃ before after, standard.score (badAt 1 0) = .ok before ∧
      standard.score (badAt 1 1) = .ok after ∧
      before.each.lateralComfort ≤ after.each.lateralComfort ∧
      before.each.longitudinalComfort ≤ after.each.longitudinalComfort ∧
      after.each.safety ≤ before.each.safety := by
  have decay : 0 ≤ standard.settings.decay := by decide +kernel
  have decay' : standard.settings.decay ≤ 1 := by decide +kernel
  have grounded : standard.settings.bounds.safety.lower = 0 := by decide +kernel
  have full : standard.settings.bounds.safety.upper ≤
      standard.settings.decay ^ 1 * noCollision := by
    decide +kernel
  have early : (badAt 1 0).steps = 2 := rfl
  have late : (badAt 1 1).steps = 2 := rfl
  obtain ⟨before, after, scored, scored', lateral, longitudinal, closeness⟩ :=
    standard.score_of_late decay decay' grounded Nat.zero_lt_one Nat.one_lt_two 1 early late
  exact ⟨decay, decay', grounded, Nat.zero_lt_one, Nat.one_lt_two, early, late, full, before, after,
    scored, scored', lateral rfl rfl, longitudinal rfl rfl, ((closeness rfl rfl).2 full).1⟩

/-- One second to a collision at the second of two steps scores lower than at the first one. -/
theorem badAt_costs_late :
    0 ≤ standard.settings.decay ∧ standard.settings.decay ≤ 1 ∧
    (∀ criterion, (standard.settings.bounds.get criterion).lower = 0) ∧
    (badAt 0 0).timeToCollision = disturbed noCollision 2 0 1 ∧
    (badAt 0 1).timeToCollision = disturbed noCollision 2 1 1 ∧
    ∃ before after, standard.score (badAt 0 0) = .ok before ∧
      standard.score (badAt 0 1) = .ok after ∧
      before.each.safety = 3 / 5 ∧ after.each.safety = 29 / 50 ∧
      ¬ before.each.safety ≤ after.each.safety := by
  have grounded : ∀ criterion, (standard.settings.bounds.get criterion).lower = 0 := by
    intro criterion
    cases criterion <;> decide +kernel
  exact ⟨by decide +kernel, by decide +kernel, grounded, rfl, rfl, _, _,
    standard.score_eq_ok Nat.two_pos, standard.score_eq_ok Nat.two_pos, by decide +kernel,
    by decide +kernel, by decide +kernel⟩

end Scorer

end ManeuverRanking
