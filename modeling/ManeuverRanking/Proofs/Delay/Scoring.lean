import ManeuverRanking.Proofs.Candidate.Scoring
import ManeuverRanking.Proofs.Delay.Material
import ManeuverRanking.Proofs.Sorting.Mapping

/-!
Metrics, scores and ranks of a drive recorded some time later. Stamps enter the metrics only through
differences of accelerations, which are taken in words, so they stay what they are as long as all
stamps fit.
-/

namespace ManeuverRanking

variable {α : Type}

namespace Builder

theorem motions_delay (time : Int) (material : Material α) (resampled : List (PlanPoint α))
    (sampled : List (List (PlanPoint α))) :
    motions (material.delay time) resampled sampled =
      (motions material resampled sampled).map (Prod.map id (Motion.delay time)) := by
  have alternatives : sampled.map (Prod.map id (Motion.delay time) ∘ fun points =>
      (Origin.sampled, Motion.planned points)) =
      sampled.map fun points => (Origin.sampled, Motion.planned points) := rfl
  cases driven : material.driven <;>
    simp [motions, Material.delay, driven, Motion.delay, alternatives]

theorem candidates_delay (time : Int) (material : Material α) (resampled : List (PlanPoint α))
    (sampled : List (List (PlanPoint α))) :
    candidates (material.delay time) resampled sampled =
      (candidates material resampled sampled).map (Candidate.delay time) := by
  rw [candidates_eq, candidates_eq, motions_delay, List.zipIdx_map, List.map_map, List.map_map]
  rfl

theorem candidates_fit {time : Int} {material : Material α} (fits : material.Fits time)
    (resampled : List (PlanPoint α)) (sampled : List (List (PlanPoint α))) :
    ∀ candidate ∈ candidates material resampled sampled, candidate.Fits time := by
  intro candidate member motion driven
  rcases (mem_candidates member).2 with ⟨kept, held, same⟩ | ⟨points, -, same⟩
  · cases same.symm.trans driven
    exact fits _ held
  · cases same.symm.trans driven

end Builder

variable [Scalar α]

namespace Extractor

theorem cut_map {β γ : Type} (extractor : Extractor α) (name : String) (change : β → γ)
    (history : List β) :
    extractor.cut name (history.map change) = (extractor.cut name history).map (List.map change) := by
  simp only [cut, List.length_map]
  split
  · rfl
  · rw [← List.map_take]
    rfl

theorem cut_subset {β : Type} {extractor : Extractor α} {name : String} {history entries : List β}
    (enough : extractor.cut name history = .ok entries) : ∀ entry ∈ entries, entry ∈ history := by
  unfold cut at enough
  split at enough
  · cases enough
  · cases enough
    intro entry member
    exact List.mem_of_mem_take member

theorem secondsBetween_delay (time start stop : Int) :
    (secondsBetween (start + time) (stop + time) : α) = secondsBetween start stop := by
  have same : stop + time - (start + time) = stop - start := by omega
  rw [secondsBetween, same]
  rfl

theorem secondsOfStamps_delay {time : Int} {stamps : List Int}
    (fits : ∀ stamp ∈ stamps, fitsWord stamp = true ∧ fitsWord (stamp + time) = true) :
    (secondsOfStamps (stamps.map (· + time)) : Except (Fault α) (List α)) =
      secondsOfStamps stamps := by
  have now : stamps.find? (fun stamp => !fitsWord stamp) = none := by
    apply List.find?_eq_none.mpr
    intro stamp member
    simp [(fits stamp member).1]
  have later : (stamps.map (· + time)).find? (fun stamp => !fitsWord stamp) = none := by
    apply List.find?_eq_none.mpr
    intro stamp member
    obtain ⟨before, inside, rfl⟩ := List.mem_map.mp member
    simp [(fits before inside).2]
  unfold secondsOfStamps
  rw [now, later]
  simp only [← List.map_drop, List.zipWith_map, secondsBetween_delay]

theorem ofDriven_delay {time : Int} (extractor : Extractor α) {motion : DrivenMotion α}
    (fits : motion.Fits time) (objects : List (TrackedObjects α)) :
    extractor.ofDriven (motion.delay time) (objects.map (Payload.delay time .objects)) =
      extractor.ofDriven motion objects := by
  unfold ofDriven
  simp only [DrivenMotion.delay, cut_map, map_bind]
  apply bind_congr_of_ok
  intro odometry _
  apply bind_congr_of_ok
  intro acceleration cutShort
  apply bind_congr_of_ok
  intro steering _
  have stamps : (acceleration.map (Payload.delay time .acceleration)).map AccelerationReport.stamp =
      (acceleration.map AccelerationReport.stamp).map (· + time) := by
    simp only [List.map_map]
    rfl
  -- Stamps are used by their differences, which stay as long as both sides fit a word.
  have fit : ∀ stamp ∈ acceleration.map AccelerationReport.stamp,
      fitsWord stamp = true ∧ fitsWord (stamp + time) = true := by
    intro stamp member
    obtain ⟨report, inside, rfl⟩ := List.mem_map.mp member
    exact fits report (cut_subset cutShort report inside)
  have seconds := secondsOfStamps_delay (α := α) fit
  have values : (acceleration.map (Payload.delay time .acceleration)).map
      AccelerationReport.longitudinal = acceleration.map AccelerationReport.longitudinal := by
    simp only [List.map_map]
    rfl
  have poses : (odometry.map (Payload.delay time .odometry)).map Odometry.pose =
      odometry.map Odometry.pose := by
    simp only [List.map_map]
    rfl
  simp only [Function.comp_apply, stamps, seconds, values, poses, List.zip_map, mapM_map]
  rfl

theorem ofPlanned_delay (time : Int) (extractor : Extractor α) (points : List (PlanPoint α))
    (objects : List (TrackedObjects α)) :
    extractor.ofPlanned points (objects.map (Payload.delay time .objects)) =
      extractor.ofPlanned points objects := by
  unfold ofPlanned
  apply bind_congr_of_ok
  intro points _
  apply bind_congr_of_ok
  intro jerk _
  have sameObjects : points.zip (objects.map (Payload.delay time .objects)) =
      (points.zip objects).map (Prod.map id (Payload.delay time .objects)) := by
    rw [← List.zip_map, List.map_id]
  simp only [sameObjects, mapM_map]
  rfl

end Extractor

theorem Extractor.extract_delay {time : Int} (extractor : Extractor α) {candidate : Candidate α}
    (fits : candidate.Fits time) :
    extractor.extract (candidate.delay time) = extractor.extract candidate := by
  obtain ⟨origin, motion, objects, generation⟩ := candidate
  unfold extract
  simp only [Candidate.delay, cut_map, map_bind]
  apply bind_congr_of_ok
  intro objects _
  cases motion with
  | driven motion => exact extractor.ofDriven_delay (fits motion rfl) objects
  | planned points => exact extractor.ofPlanned_delay time points objects
  | unknown kind => rfl

theorem Ranking.ofScored_delay (time clock : Int) (scored : List (ScoredCandidate α)) :
    ofScored (clock + time) (scored.map (ScoredCandidate.delay time)) =
      (ofScored clock scored).delay time := by
  simp only [ofScored, sortDescending_map]
  rfl

namespace Builder

theorem scoreCandidate_delay {time : Int} (builder : Builder α) {candidate : Candidate α}
    (fits : candidate.Fits time) :
    builder.scoreCandidate (candidate.delay time) =
      (builder.scoreCandidate candidate).map (ScoredCandidate.delay time) := by
  unfold scoreCandidate
  rw [builder.extractor.extract_delay fits]
  cases builder.extractor.extract candidate with
  | error fault => rfl
  | ok metrics =>
      simp only [bind, Except.bind]
      cases builder.scorer.score metrics <;> rfl

theorem scoreAll_delay {time : Int} (builder : Builder α) {candidates : List (Candidate α)}
    (fits : ∀ candidate ∈ candidates, candidate.Fits time) :
    builder.scoreAll (candidates.map (Candidate.delay time)) =
      (builder.scoreAll candidates).map (List.map (ScoredCandidate.delay time)) := by
  rw [scoreAll_eq_mapM, scoreAll_eq_mapM]
  exact mapM_map_comm fun candidate member => builder.scoreCandidate_delay (fits candidate member)

theorem rank_delay {time : Int} (builder : Builder α) (clock : Int) {material : Material α}
    (fits : material.Fits time) (resampled : List (PlanPoint α))
    (trajectories : List (List (PlanPoint α))) :
    Alike (Outcome.Alike fun ranking ranking' => ranking' = ranking.delay time)
      (builder.rank clock material resampled trajectories)
      (builder.rank (clock + time) (material.delay time) resampled trajectories) := by
  unfold rank
  rw [candidates_delay, builder.scoreAll_delay (candidates_fit fits _ _)]
  cases builder.scoreAll (candidates material resampled (builder.usable trajectories)) with
  | error fault => rfl
  | ok scored => exact Ranking.ofScored_delay time clock scored

theorem rankMaterial_delay {time : Int} (builder : Builder α) (clock : Int)
    {material : Material α} (fits : material.Fits time) :
    Alike (Outcome.Alike fun ranking ranking' => ranking' = ranking.delay time)
      (builder.rankMaterial clock material).outcome
      (builder.rankMaterial (clock + time) (material.delay time)).outcome := by
  have resampled : (material.delay time).seed.plan.resample (material.delay time).seed.odometry
      builder.horizon = material.seed.plan.resample material.seed.odometry builder.horizon := rfl
  have request : builder.request? (material.delay time).seed = builder.request? material.seed := rfl
  unfold rankMaterial
  rw [resampled, request]
  cases material.seed.plan.resample material.seed.odometry builder.horizon with
  | error fault => rfl
  | ok resampled =>
      cases builder.request? material.seed with
      | error fault => rfl
      | ok asked =>
          cases asked with
          | none => exact builder.rank_delay clock fits resampled []
          | some ask =>
              apply (Alike.refl (ask.1 ask.2)).bind
              rintro trajectories _ rfl
              exact builder.rank_delay clock fits resampled trajectories

/-- A build on a snapshot some time later ranks the same candidates in the same order. -/
theorem build_delay {time : Int} {snapshot : Snapshot α}
    (timed : snapshot.Timed (Payload.Fits time)) (builder : Builder α) :
    Alike (Outcome.Alike fun ranking ranking' => ranking' = ranking.delay time)
      (builder.build snapshot).outcome (builder.build (snapshot.delay time)).outcome := by
  unfold build
  rcases (builder.gather_delay timed).cases_on with
    ⟨_, _, failed, failed', same⟩ | ⟨_, _, gathered, gathered', alike⟩
  · rw [failed, failed']
    exact same
  · rw [gathered, gathered']
    rcases alike.cases_on with ⟨_, _, rfl, rfl, same⟩ | ⟨material, _, rfl, rfl, fits, rfl⟩
    · exact same
    · exact builder.rankMaterial_delay snapshot.clock fits

end Builder

end ManeuverRanking
