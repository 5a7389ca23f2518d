import Mathlib.Analysis.SpecialFunctions.Complex.Arg
import Mathlib.Data.List.GetD
import ManeuverRanking.Proofs.Geometry.Unwrapping
import ManeuverRanking.Proofs.Metric.Series

/-!
Jerk over the real numbers. Over the time that passes it adds up to the change of acceleration. Steps
on which the clock stands still or runs back are left out on both sides.
-/

namespace ManeuverRanking

section Jerk

variable {accelerations elapsed jerk : List ℝ}

theorem getD_differences (values : List ℝ) {index : Nat} (next : index + 1 < values.length) :
    (differences values).getD index 0 = values.getD (index + 1) 0 - values.getD index 0 := by
  have inside := Nat.lt_of_succ_lt next
  rw [List.getD_eq_getElem?_getD, getElem?_differences values inside next, Option.getD_some,
    List.getD_eq_getElem _ _ next, List.getD_eq_getElem _ _ inside]

theorem jerkOver_mul (change seconds : ℝ) :
    jerkOver change seconds * max seconds 0 = if 0 < seconds then change else 0 := by
  unfold jerkOver
  split
  · rename_i passes
    rw [max_eq_left passes.le, div_mul_cancel₀ _ passes.ne']
  · exact zero_mul _

theorem length_longitudinalJerk (done : longitudinalJerk accelerations elapsed = .ok jerk) :
    jerk.length = accelerations.length := by
  have timed : elapsed.length = accelerations.length - 1 := by
    unfold longitudinalJerk at done
    split at done
    · cases done
    · omega
  obtain ⟨found, told, length, -⟩ := yields_longitudinalJerk timed
  obtain rfl := Except.ok.inj (told.symm.trans done)
  exact length

theorem getD_longitudinalJerk (done : longitudinalJerk accelerations elapsed = .ok jerk)
    {step : Nat} (next : step + 1 < accelerations.length) :
    jerk.getD step 0 =
      jerkOver (accelerations.getD (step + 1) 0 - accelerations.getD step 0)
        (elapsed.getD step 0) := by
  unfold longitudinalJerk at done
  split at done
  · cases done
  · rename_i timed
    have changes : step < (differences accelerations).length := by
      rw [length_differences]
      omega
    have times : step < elapsed.length := by omega
    split at done
    · exact absurd next (Nat.not_lt_zero _)
    · obtain rfl := Except.ok.inj done
      have inside : step < (List.zipWith jerkOver (differences accelerations) elapsed).length := by
        rw [List.length_zipWith]
        exact Nat.lt_min.mpr ⟨changes, times⟩
      rw [List.getD_append _ _ _ _ inside, List.getD_eq_getElem _ _ inside, List.getElem_zipWith,
        ← getD_differences _ next, List.getD_eq_getElem _ _ changes, List.getD_eq_getElem _ _ times]

/-- Jerk times the time that passes adds up to what acceleration changes by on the steps on which time
passes, and to its whole change if time passes on all of them. -/
structure IntegratesOver (jerk accelerations : List ℝ) (clock : Nat → ℝ) : Prop where
  length : jerk.length = accelerations.length
  passing : ∀ last < accelerations.length,
    ∑ step ∈ Finset.range last, jerk.getD step 0 * max (clock (step + 1) - clock step) 0 =
      ∑ step ∈ Finset.range last with clock step < clock (step + 1),
        (accelerations.getD (step + 1) 0 - accelerations.getD step 0)
  advancing : ∀ last < accelerations.length, (∀ step < last, clock step < clock (step + 1)) →
    ∑ step ∈ Finset.range last, jerk.getD step 0 * max (clock (step + 1) - clock step) 0 =
      accelerations.getD last 0 - accelerations.getD 0 0

theorem integratesOver_of_elapsed (done : longitudinalJerk accelerations elapsed = .ok jerk)
    {clock : Nat → ℝ} (elapses : ∀ step, step + 1 < accelerations.length →
      elapsed.getD step 0 = clock (step + 1) - clock step) :
    IntegratesOver jerk accelerations clock := by
  have passing : ∀ last < accelerations.length,
      ∑ step ∈ Finset.range last, jerk.getD step 0 * max (clock (step + 1) - clock step) 0 =
        ∑ step ∈ Finset.range last with clock step < clock (step + 1),
          (accelerations.getD (step + 1) 0 - accelerations.getD step 0) := by
    intro last inside
    rw [Finset.sum_filter]
    refine Finset.sum_congr rfl fun step before => ?_
    have next : step + 1 < accelerations.length :=
      Nat.lt_of_le_of_lt (Finset.mem_range.mp before) inside
    rw [getD_longitudinalJerk done next, elapses step next, jerkOver_mul]
    simp only [sub_pos]
  refine ⟨length_longitudinalJerk done, passing, fun last inside advances => ?_⟩
  rw [passing last inside,
    Finset.filter_true_of_mem fun step before => advances step (Finset.mem_range.mp before),
    Finset.sum_range_sub fun step => accelerations.getD step 0]

end Jerk

namespace Extractor

section Stamps

def Held (stamps : List Int) : Prop :=
  ∀ stamp ∈ stamps, 0 ≤ stamp ∧ stamp < 2 ^ 63

variable {stamps : List Int}

theorem bmod_wordCount {stamp : Int} (low : -2 ^ 63 ≤ stamp) (high : stamp < 2 ^ 63) :
    stamp.bmod wordCount = stamp := by
  have words : (wordCount : Int) = 2 ^ 64 := rfl
  apply Int.bmod_eq_of_le <;> rw [words] <;> omega

theorem Held.fitsWord (held : Held stamps) {stamp : Int} (inside : stamp ∈ stamps) :
    fitsWord stamp = true := by
  obtain ⟨low, high⟩ := held stamp inside
  exact decide_eq_true (bmod_wordCount (by omega) high)

theorem Held.bmod_sub (held : Held stamps) {start stop : Int} (first : start ∈ stamps)
    (second : stop ∈ stamps) : (stop - start).bmod wordCount = stop - start := by
  obtain ⟨low, high⟩ := held start first
  obtain ⟨low', high'⟩ := held stop second
  exact bmod_wordCount (by omega) (by omega)

theorem Held.getD_secondsOfStamps (held : Held stamps) {elapsed : List ℝ}
    (timed : secondsOfStamps stamps = .ok elapsed) {step : Nat} (next : step + 1 < stamps.length) :
    elapsed.getD step 0 =
      (stamps.getD (step + 1) 0 : ℝ) / 10 ^ 9 - (stamps.getD step 0 : ℝ) / 10 ^ 9 := by
  have inside := Nat.lt_of_succ_lt next
  unfold secondsOfStamps at timed
  split at timed
  · cases timed
  · obtain rfl := Except.ok.inj timed
    have both : step < (List.zipWith (@secondsBetween ℝ _) stamps (stamps.drop 1)).length := by
      simp only [List.length_zipWith, List.length_drop]
      omega
    have whole := held.bmod_sub (List.getElem_mem inside) (List.getElem_mem next)
    have between : secondsBetween stamps[step] stamps[step + 1] =
        ((stamps[step + 1] - stamps[step] : Int) : ℝ) / ((1000000000 : Int) : ℝ) := by
      rw [← whole]
      rfl
    rw [List.getD_eq_getElem _ _ both, List.getElem_zipWith, List.getElem_drop,
      List.getD_eq_getElem _ _ inside, List.getD_eq_getElem _ _ next]
    simp only [Nat.add_comm 1 step, between]
    push_cast
    ring

end Stamps

section Points

variable {extractor : Extractor ℝ} {points : List (PlanPoint ℝ)}

def Timed (points : List (PlanPoint ℝ)) : Prop :=
  ∃ step, step + 1 < points.length ∧
    (points.map PlanPoint.time).getD step 0 < (points.map PlanPoint.time).getD (step + 1) 0

theorem timed_iff : Timed points ↔
    (differences (points.map PlanPoint.time)).any (fun seconds => decide (0 < seconds)) = true := by
  have length := length_differences (points.map PlanPoint.time)
  rw [List.length_map] at length
  simp only [List.any_eq_true, decide_eq_true_eq, List.mem_iff_getElem]
  constructor
  · rintro ⟨step, next, passes⟩
    have inside : step < (differences (points.map PlanPoint.time)).length := by omega
    refine ⟨_, ⟨step, inside, rfl⟩, ?_⟩
    rwa [← List.getD_eq_getElem _ 0 inside, getD_differences _ (by rwa [List.length_map]), sub_pos]
  · rintro ⟨_, ⟨step, inside, rfl⟩, passes⟩
    have next : step + 1 < points.length := by omega
    refine ⟨step, next, ?_⟩
    rwa [← List.getD_eq_getElem _ 0 inside, getD_differences _ (by rwa [List.length_map]),
      sub_pos] at passes

theorem getD_secondsOfPoints_of_timed (timed : Timed points) {step : Nat}
    (next : step + 1 < points.length) :
    (extractor.secondsOfPoints points).getD step 0 =
      (points.map PlanPoint.time).getD (step + 1) 0 - (points.map PlanPoint.time).getD step 0 := by
  rw [secondsOfPoints, if_pos (timed_iff.mp timed), getD_differences _ (by rwa [List.length_map])]

theorem getD_secondsOfPoints_of_untimed (untimed : ¬ Timed points)
    (full : points.length = extractor.horizon.steps) {step : Nat} (next : step + 1 < points.length) :
    (extractor.secondsOfPoints points).getD step 0 = extractor.horizon.interval := by
  rw [timed_iff] at untimed
  rw [secondsOfPoints, if_neg untimed, List.getD_replicate _ (by omega)]

end Points

/-- The jerk of an extraction adds up to the acceleration that it was taken from, over the clock of the
data: the stamps of the reports, whose differences do not wrap; the times of the points; or even steps
of an interval if no time passes between points. -/
theorem extract_integrates (extractor : Extractor ℝ) (candidate : Candidate ℝ) :
    (∀ motion, candidate.motion = .driven motion →
      let reports := motion.acceleration.take extractor.horizon.steps
      let stamps := reports.map AccelerationReport.stamp
      Held stamps →
        (∀ start ∈ stamps, ∀ stop ∈ stamps, (stop - start).bmod wordCount = stop - start) ∧
        ((∀ history ∈ candidate.lengths, extractor.horizon.steps ≤ history.2) →
          extractor.Computes candidate →
          Yields (extractor.extract candidate) fun series =>
            reports.length = extractor.horizon.steps ∧
            IntegratesOver series.longitudinalJerk (reports.map AccelerationReport.longitudinal)
              fun step => (stamps.getD step 0 : ℝ) / 10 ^ 9)) ∧
    ∀ points, candidate.motion = .planned points →
      (∀ history ∈ candidate.lengths, extractor.horizon.steps ≤ history.2) →
      extractor.Computes candidate →
      let points := points.take extractor.horizon.steps
      Yields (extractor.extract candidate) fun series =>
        points.length = extractor.horizon.steps ∧
        (Timed points →
          IntegratesOver series.longitudinalJerk (points.map PlanPoint.acceleration)
            fun step => (points.map PlanPoint.time).getD step 0) ∧
        (¬ Timed points →
          IntegratesOver series.longitudinalJerk (points.map PlanPoint.acceleration)
            fun step => step * extractor.horizon.interval) := by
  constructor
  · intro motion own reports stamps held
    refine ⟨fun start first stop second => held.bmod_sub first second, fun reaches computes => ?_⟩
    obtain ⟨series, done, -⟩ := ensures_false_iff.mp (ensures_extract reaches computes)
    obtain ⟨enough, elapsed, timed, jerked⟩ := driven_of_extract own done
    refine ⟨series, done, List.length_take_of_le enough,
      integratesOver_of_elapsed jerked fun step next => held.getD_secondsOfStamps timed ?_⟩
    rwa [List.length_map] at next ⊢
  · intro points own reaches computes taken
    obtain ⟨series, done, -⟩ := ensures_false_iff.mp (ensures_extract reaches computes)
    obtain ⟨enough, jerked, -⟩ := planned_of_extract own done
    have full : taken.length = extractor.horizon.steps := List.length_take_of_le enough
    refine ⟨series, done, full, fun timed => ?_, fun untimed => ?_⟩
    · refine integratesOver_of_elapsed jerked fun step next => ?_
      rw [List.length_map] at next
      exact getD_secondsOfPoints_of_timed timed next
    · refine integratesOver_of_elapsed jerked fun step next => ?_
      rw [List.length_map] at next
      rw [getD_secondsOfPoints_of_untimed untimed full next]
      push_cast
      ring

noncomputable def overThreeSteps : Extractor ℝ :=
  ⟨standardWheelBase, 3, 1, Nat.succ_pos 2, Real.zero_lt_one⟩

noncomputable def resting : DrivenMotion ℝ where
  odometry := List.replicate 3 ⟨0, ⟨⟨0, 0, 0⟩, .identity⟩, [0, 0, 0]⟩
  acceleration := [⟨5, 0, 0⟩, ⟨3, 1, 0⟩, ⟨2000000003, -1, 0⟩]
  steering := List.replicate 3 ⟨0, 0⟩

noncomputable def restingAlone : Candidate ℝ :=
  ⟨.executed, .driven resting, List.replicate 3 ⟨0, []⟩, 0⟩

theorem held_resting : Held (resting.acceleration.map AccelerationReport.stamp) := by
  simp [Held, resting]

theorem computes_resting : overThreeSteps.Computes restingAlone := by
  unfold Computes Operates
  dsimp only [restingAlone]
  refine ⟨fun entry inside => ?_, fun report inside => ?_, fun pair paired => ?_⟩
  · rw [List.eq_of_mem_replicate (List.mem_of_mem_take inside)]
    exact .of_yields (completes_ok _)
  · exact .inl (held_resting.fitsWord (List.mem_map_of_mem (List.mem_of_mem_take inside)))
  · obtain ⟨driven, around⟩ := List.of_mem_zip paired
    rw [List.eq_of_mem_replicate (List.mem_of_mem_take driven),
      List.eq_of_mem_replicate (List.mem_of_mem_take around)]
    exact .of_yields (completes_collisionAt _ rfl nofun)

theorem resting_integrates : Held (resting.acceleration.map AccelerationReport.stamp) ∧
    Yields (overThreeSteps.extract restingAlone) fun series =>
      series.longitudinalJerk.getD 1 0 * 2 = -1 - 1 := by
  obtain ⟨driven, -⟩ := overThreeSteps.extract_integrates restingAlone
  obtain ⟨-, integrates⟩ := driven resting rfl held_resting
  have reaches : ∀ history ∈ restingAlone.lengths, overThreeSteps.horizon.steps ≤ history.2 := by
    simp [Candidate.lengths, Motion.lengths, restingAlone, resting, overThreeSteps]
  refine ⟨held_resting, (integrates reaches computes_resting).mono ?_⟩
  rintro series ⟨-, integrates⟩
  have total := integrates.passing 2 (by simp [resting, overThreeSteps])
  rw [List.getD_eq_getElem?_getD]
  norm_num [Finset.sum_range_succ, Finset.sum_filter, resting, overThreeSteps] at total ⊢
  exact total

end Extractor

end ManeuverRanking
