import ManeuverRanking.Proofs.Metric.Horizon

/-!
What the series of an extraction were made of. Where metrics are found, each history reaches the
horizon, and its first entries are all that the series are taken from.
-/

namespace ManeuverRanking

theorem MetricSeries.of_eq_ok {α : Type} {lateral jerk collision distance : List α}
    {series : MetricSeries α} (done : MetricSeries.of lateral jerk collision distance = .ok series) :
    series.lateralAcceleration = lateral ∧ series.longitudinalJerk = jerk ∧
      series.timeToCollision = collision ∧ series.travelDistance = distance := by
  unfold MetricSeries.of at done
  split at done
  · cases done
    exact ⟨rfl, rfl, rfl, rfl⟩
  · cases done

namespace Extractor

variable {α : Type} [Scalar α] {extractor : Extractor α} {candidate : Candidate α}
  {series : MetricSeries α}

theorem driven_of_extract {motion : DrivenMotion α} (own : candidate.motion = .driven motion)
    (done : extractor.extract candidate = .ok series) :
    extractor.horizon.steps ≤ motion.acceleration.length ∧
      ∃ elapsed, secondsOfStamps ((motion.acceleration.take extractor.horizon.steps).map
          AccelerationReport.stamp) = .ok elapsed ∧
        longitudinalJerk ((motion.acceleration.take extractor.horizon.steps).map
          AccelerationReport.longitudinal) elapsed = .ok series.longitudinalJerk := by
  obtain ⟨objects, histories⟩ := List.forall_mem_cons.mp (reaches_of_extract done)
  simp only [own, Motion.lengths, List.forall_mem_cons, List.not_mem_nil, false_implies,
    implies_true, and_true] at histories
  obtain ⟨odometry, acceleration, steering⟩ := histories
  simp only [extract, own, ofDriven, cut_eq _ objects, cut_eq _ odometry, cut_eq _ acceleration,
    cut_eq _ steering, bind_eq_ok_iff, Except.ok.injEq, exists_eq_left'] at done
  obtain ⟨lateral, -, elapsed, timed, jerk, jerked, collision, -, told⟩ := done
  obtain ⟨-, same, -, -⟩ := MetricSeries.of_eq_ok told
  exact ⟨acceleration, elapsed, timed, same ▸ jerked⟩

theorem planned_of_extract {points : List (PlanPoint α)} (own : candidate.motion = .planned points)
    (done : extractor.extract candidate = .ok series) :
    extractor.horizon.steps ≤ points.length ∧
      longitudinalJerk ((points.take extractor.horizon.steps).map PlanPoint.acceleration)
        (extractor.secondsOfPoints (points.take extractor.horizon.steps)) =
          .ok series.longitudinalJerk ∧
      series.travelDistance =
        pathProgress false ((points.take extractor.horizon.steps).map PlanPoint.pose) := by
  obtain ⟨objects, histories⟩ := List.forall_mem_cons.mp (reaches_of_extract done)
  simp only [own, Motion.lengths, List.forall_mem_cons, List.not_mem_nil, false_implies,
    implies_true, and_true] at histories
  simp only [extract, own, ofPlanned, cut_eq _ objects, cut_eq _ histories, bind_eq_ok_iff,
    Except.ok.injEq, exists_eq_left'] at done
  obtain ⟨jerk, jerked, collision, -, told⟩ := done
  obtain ⟨-, same, -, travelled⟩ := MetricSeries.of_eq_ok told
  exact ⟨histories, same ▸ jerked, travelled⟩

end Extractor

end ManeuverRanking
