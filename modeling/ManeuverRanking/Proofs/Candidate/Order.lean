import ManeuverRanking.Proofs.Candidate.Stages
import ManeuverRanking.Proofs.Sorting.Stable

/-!
The order of a ranking. It holds all candidates of a build, each once, and where all totals are
defined, none of them is before a better one.
-/

namespace ManeuverRanking

theorem mapM_map_eq {ε β γ δ : Type} {step : β → Except ε γ} {read : γ → δ} {label : β → δ}
    (each : ∀ value result, step value = .ok result → read result = label value) {values : List β}
    {results : List γ} (mapped : values.mapM step = .ok results) :
    results.map read = values.map label := by
  induction values generalizing results with
  | nil =>
      cases mapped
      rfl
  | cons value rest ih =>
      simp only [List.mapM_cons, bind_eq_ok_iff, pure, Except.pure, Except.ok.injEq] at mapped
      obtain ⟨first, done, later, after, rfl⟩ := mapped
      rw [List.map_cons, List.map_cons, each value first done, ih after]

namespace Builder

variable {α : Type}

theorem candidates_generation (material : Material α) (resampled : List (PlanPoint α))
    (sampled : List (List (PlanPoint α))) :
    (candidates material resampled sampled).map Candidate.generation =
      List.range (candidates material resampled sampled).length := by
  simp only [candidates, List.map_map, List.length_map, List.length_zipIdx]
  rw [List.range_eq_range', ← List.zipIdx_map_snd 0]
  rfl

variable [Scalar α]

theorem candidate_of_scored {builder : Builder α} {candidate : Candidate α}
    {scored : ScoredCandidate α} (done : builder.scoreCandidate candidate = .ok scored) :
    scored.candidate = candidate := by
  simp only [scoreCandidate, bind_eq_ok_iff, pure, Except.pure, Except.ok.injEq] at done
  obtain ⟨metrics, -, scores, -, rfl⟩ := done
  rfl

theorem scoreAll_candidates {builder : Builder α} {candidates : List (Candidate α)}
    {scored : List (ScoredCandidate α)} (done : builder.scoreAll candidates = .ok scored) :
    scored.map ScoredCandidate.candidate = candidates := by
  rw [scoreAll_eq_mapM] at done
  have same := mapM_map_eq (fun _ _ => candidate_of_scored) done
  rw [List.map_id'] at same
  exact same

theorem length_ranked_of_build {builder : Builder α} {snapshot : Snapshot α} {ranking : Ranking α}
    (ready : (builder.build snapshot).outcome = .ok (.ready ranking)) :
    ∃ seed offered, snapshot.seed = .ok seed ∧ builder.offers seed = .ok offered ∧
      ranking.ranked.length =
        builder.includeExecuted.toNat + 1 + (builder.usable offered).length := by
  obtain ⟨material, resampled, offered, gathered, -, answered, ranked⟩ :=
    (builder.build_eq_ready_iff ..).mp ready
  obtain ⟨seeded, -, executed, -⟩ := (builder.gather_eq_ready_iff ..).mp gathered
  simp only [rank, bind_eq_ok_iff, pure, Except.pure, Except.ok.injEq, Outcome.ready.injEq] at ranked
  obtain ⟨scored, done, rfl⟩ := ranked
  refine ⟨material.seed, offered, seeded, answered, ?_⟩
  have sorted := (sortDescending_perm ScoredCandidate.total scored).length_eq
  have listed := congrArg List.length (scoreAll_candidates done)
  have drove : material.driven.toList.length = builder.includeExecuted.toNat := by
    rw [← executed]
    cases material.driven <;> rfl
  simp only [candidates, List.length_map, List.length_zipIdx, List.length_append,
    List.length_cons, drove] at listed
  rw [Ranking.ofScored, sorted, listed]
  omega

theorem length_of_scripted {builder : Builder α} {snapshot : Snapshot α} {ranking : Ranking α}
    (ready : (builder.build snapshot).outcome = .ok (.ready ranking))
    {script : List (List (PlanPoint α))}
    (scripted : builder.sampler = some (Sampler.scripted script)) {seed : Seed α}
    (seeded : snapshot.seed = .ok seed) (long : 2 ≤ seed.plan.points.length) :
    ranking.ranked.length = builder.includeExecuted.toNat + 1 + (builder.usable script).length := by
  obtain ⟨seed', offered, seeded', answered, length⟩ := length_ranked_of_build ready
  cases seeded.symm.trans seeded'
  simp only [offers, bind_eq_ok_iff] at answered
  obtain ⟨ask, found, answered⟩ := answered
  cases ask with
  | none =>
      rcases (builder.request?_eq_none_iff seed).mp found with none | short
      · cases scripted.symm.trans none
      · exact absurd long (Nat.not_le.mpr short)
  | some ask =>
      obtain ⟨sampler, request⟩ := ask
      cases scripted.symm.trans ((builder.request?_eq_some_iff ..).mp found).1
      cases answered
      exact length

theorem length_of_unsampled {builder : Builder α} {snapshot : Snapshot α} {ranking : Ranking α}
    (ready : (builder.build snapshot).outcome = .ok (.ready ranking))
    (unsampled : builder.sampler = none) :
    ranking.ranked.length = builder.includeExecuted.toNat + 1 := by
  obtain ⟨seed, offered, -, answered, length⟩ := length_ranked_of_build ready
  rw [offers, request?, unsampled] at answered
  cases answered
  exact length

end Builder

/-- All candidates of a build, each once, and best first where all totals are defined. -/
structure Ranking.Complete (ranking : Ranking Float) : Prop where
  some : ranking.ranked ≠ []
  generations : (ranking.ranked.map fun scored => scored.candidate.generation).Perm
    (List.range ranking.ranked.length)
  descending : (∀ scored ∈ ranking.ranked, isUndefined scored.total = false) →
    ranking.ranked.Pairwise fun better worse => worse.total ≤ better.total

theorem Ranking.complete_ofScored {scored : List (ScoredCandidate Float)} (clock : Int)
    (some : scored ≠ [])
    (numbered : scored.map (fun scored => scored.candidate.generation) = List.range scored.length) :
    (Ranking.ofScored clock scored).Complete := by
  have kept := sortDescending_perm ScoredCandidate.total scored
  constructor
  · intro none
    exact some ((List.Perm.nil_eq (none ▸ kept)).symm)
  · have generations := kept.map fun scored => scored.candidate.generation
    rw [numbered, ← kept.length_eq] at generations
    exact generations
  · intro defined
    apply sortDescending_pairwise
    intro candidate member
    exact defined candidate (kept.mem_iff.mpr member)

theorem Builder.complete_of_build {builder : Builder Float} {snapshot : Snapshot Float}
    {ranking : Ranking Float} (ready : (builder.build snapshot).outcome = .ok (.ready ranking)) :
    ranking.Complete := by
  obtain ⟨material, resampled, trajectories, ranked⟩ := rank_of_build ready
  simp only [rank, bind_eq_ok_iff, pure, Except.pure, Except.ok.injEq, Outcome.ready.injEq] at ranked
  obtain ⟨scored, done, rfl⟩ := ranked
  have listed := scoreAll_candidates done
  apply Ranking.complete_ofScored
  · rintro rfl
    exact candidates_ne_nil _ _ _ listed.symm
  · have numbers := candidates_generation material resampled (builder.usable trajectories)
    rw [← listed, List.map_map, List.length_map] at numbers
    exact numbers

end ManeuverRanking
