import ManeuverRanking.Proofs.Outcome

/-!
Scoring all candidates. How many are scored at a time makes no difference, none is lost on the way
to the ranking, and there always is one for the current plan.
-/

namespace ManeuverRanking

theorem mapM_length {ε β γ : Type} (step : β → Except ε γ) (values : List β) {results : List γ}
    (mapped : values.mapM step = .ok results) : results.length = values.length := by
  induction values generalizing results with
  | nil =>
      cases mapped
      rfl
  | cons value rest ih =>
      simp only [List.mapM_cons, bind_eq_ok_iff, pure, Except.pure, Except.ok.injEq] at mapped
      obtain ⟨first, -, later, done, rfl⟩ := mapped
      rw [List.length_cons, List.length_cons, ih done]

theorem exists_of_mem_mapM {ε β γ : Type} {step : β → Except ε γ} {values : List β}
    {results : List γ} (mapped : values.mapM step = .ok results) {result : γ}
    (member : result ∈ results) : ∃ value ∈ values, step value = .ok result := by
  induction values generalizing results with
  | nil =>
      cases mapped
      cases member
  | cons value rest ih =>
      simp only [List.mapM_cons, bind_eq_ok_iff, pure, Except.pure, Except.ok.injEq] at mapped
      obtain ⟨first, done, later, others, rfl⟩ := mapped
      rcases List.mem_cons.mp member with rfl | after
      · exact ⟨value, List.mem_cons_self, done⟩
      · obtain ⟨source, inside, found⟩ := ih others after
        exact ⟨source, List.mem_cons_of_mem _ inside, found⟩

theorem mapM_map {ε β γ δ : Type} (change : β → γ) (step : γ → Except ε δ) (values : List β) :
    (values.map change).mapM step = values.mapM (step ∘ change) := by
  induction values with
  | nil => rfl
  | cons value rest ih => rw [List.map_cons, List.mapM_cons, List.mapM_cons, ih]; rfl

theorem mapM_map_comm {ε β γ β' γ' : Type} {step : β → Except ε γ} {step' : β' → Except ε γ'}
    {change : β → β'} {change' : γ → γ'} {values : List β}
    (each : ∀ value ∈ values, step' (change value) = (step value).map change') :
    (values.map change).mapM step' = (values.mapM step).map (List.map change') := by
  induction values with
  | nil => rfl
  | cons value rest ih =>
      have first := each value List.mem_cons_self
      have later := ih fun next member => each next (List.mem_cons_of_mem _ member)
      rw [List.map_cons, List.mapM_cons, List.mapM_cons, first, later]
      cases step value with
      | error fault => rfl
      | ok result =>
          simp only [Except.map, bind, Except.bind]
          cases rest.mapM step <;> rfl

theorem mapM_filter {ε β γ : Type} {step : β → Except ε γ} {keep : β → Bool} {keep' : γ → Bool}
    (agree : ∀ value result, step value = .ok result → keep' result = keep value) {values : List β}
    {results : List γ} (mapped : values.mapM step = .ok results) :
    (values.filter keep).mapM step = .ok (results.filter keep') := by
  induction values generalizing results with
  | nil =>
      cases mapped
      rfl
  | cons value rest ih =>
      simp only [List.mapM_cons, bind_eq_ok_iff, pure, Except.pure, Except.ok.injEq] at mapped
      obtain ⟨first, done, later, after, rfl⟩ := mapped
      have same := agree value first done
      cases kept : keep value with
      | false =>
          rw [List.filter_cons_of_neg (by simp [kept]),
            List.filter_cons_of_neg (by simp [same, kept])]
          exact ih after
      | true =>
          rw [List.filter_cons_of_pos kept, List.filter_cons_of_pos (by simp [same, kept]),
            List.mapM_cons, done, ih after]
          rfl

theorem mapM_get_spawn {ε β γ : Type} (step : β → Except ε γ) (values : List β) :
    (values.map fun value => Task.spawn fun _ => step value).mapM Task.get =
      values.mapM step := by
  induction values with
  | nil => rfl
  | cons value rest ih =>
      rw [List.map_cons, List.mapM_cons, List.mapM_cons, ih]
      rfl

namespace Builder

variable {α : Type}

def motions (material : Material α) (resampled : List (PlanPoint α))
    (sampled : List (List (PlanPoint α))) : List (Origin × Motion α) :=
  (material.driven.toList.map fun motion => (Origin.executed, Motion.driven motion)) ++
    (Origin.current, Motion.planned resampled) ::
      sampled.map fun points => (Origin.sampled, Motion.planned points)

theorem candidates_eq (material : Material α) (resampled : List (PlanPoint α))
    (sampled : List (List (PlanPoint α))) :
    candidates material resampled sampled = (motions material resampled sampled).zipIdx.map
      fun entry => ⟨entry.1.1, entry.1.2, material.objects, entry.2⟩ :=
  rfl

theorem mem_candidates {material : Material α} {resampled : List (PlanPoint α)}
    {sampled : List (List (PlanPoint α))} {candidate : Candidate α}
    (member : candidate ∈ candidates material resampled sampled) :
    candidate.objects = material.objects ∧
      ((∃ motion ∈ material.driven, candidate.motion = .driven motion) ∨
        ∃ points ∈ resampled :: sampled, candidate.motion = .planned points) := by
  rw [candidates_eq] at member
  obtain ⟨⟨⟨origin, motion⟩, generation⟩, inside, rfl⟩ := List.mem_map.mp member
  have listed := List.fst_mem_of_mem_zipIdx inside
  simp only [motions, List.mem_append, List.mem_cons, List.mem_map, Prod.mk.injEq] at listed
  refine ⟨rfl, ?_⟩
  rcases listed with ⟨driven, found, -, rfl⟩ | ⟨-, rfl⟩ | ⟨points, found, -, rfl⟩
  · exact .inl ⟨driven, Option.mem_toList.mp found, rfl⟩
  · exact .inr ⟨resampled, List.mem_cons_self, rfl⟩
  · exact .inr ⟨points, List.mem_cons_of_mem _ found, rfl⟩

theorem candidates_motions (material : Material α) (resampled : List (PlanPoint α))
    (sampled : List (List (PlanPoint α))) :
    (candidates material resampled sampled).map (fun candidate =>
      (candidate.origin, candidate.motion)) = motions material resampled sampled := by
  rw [candidates_eq, List.map_map]
  exact List.zipIdx_map_fst 0 _

theorem candidates_ne_nil (material : Material α) (resampled : List (PlanPoint α))
    (sampled : List (List (PlanPoint α))) : candidates material resampled sampled ≠ [] := by
  intro empty
  have length := congrArg List.length empty
  simp [candidates] at length

variable [Scalar α]

theorem length_of_mem_usable {builder : Builder α} {trajectories : List (List (PlanPoint α))}
    {points : List (PlanPoint α)} (kept : points ∈ builder.usable trajectories) :
    points.length = builder.horizon.steps := by
  simp only [usable, List.mem_map, List.mem_filter, decide_eq_true_eq] at kept
  obtain ⟨whole, ⟨-, long⟩, rfl⟩ := kept
  exact List.length_take_of_le long

theorem mem_candidates_usable {builder : Builder α} {material : Material α}
    {resampled : List (PlanPoint α)} (walked : resampled.length = builder.horizon.steps)
    {trajectories : List (List (PlanPoint α))} {candidate : Candidate α}
    (member : candidate ∈ candidates material resampled (builder.usable trajectories)) :
    candidate.objects = material.objects ∧
      ((∃ motion ∈ material.driven, candidate.motion = .driven motion) ∨
        ∃ points, points.length = builder.horizon.steps ∧ candidate.motion = .planned points) := by
  obtain ⟨objects, driven | ⟨points, listed, planned⟩⟩ := mem_candidates member
  · exact ⟨objects, .inl driven⟩
  · refine ⟨objects, .inr ⟨points, ?_, planned⟩⟩
    rcases List.mem_cons.mp listed with rfl | kept
    · exact walked
    · exact length_of_mem_usable kept

theorem scoreAll_eq_mapM (builder : Builder α) (candidates : List (Candidate α)) :
    builder.scoreAll candidates = candidates.mapM builder.scoreCandidate := by
  unfold scoreAll
  split
  · split
    · exact mapM_get_spawn _ _
    · rfl
  · rfl

theorem rank_ne_nil {builder : Builder α} {clock : Int} {material : Material α}
    {resampled : List (PlanPoint α)} {trajectories : List (List (PlanPoint α))}
    {ranking : Ranking α}
    (ready : builder.rank clock material resampled trajectories = .ok (.ready ranking)) :
    ranking.ranked ≠ [] := by
  simp only [rank, scoreAll_eq_mapM, bind_eq_ok_iff, pure, Except.pure, Except.ok.injEq,
    Outcome.ready.injEq] at ready
  obtain ⟨scored, done, rfl⟩ := ready
  have lengths := mapM_length _ _ done
  have some := List.length_pos_iff.mpr
    (candidates_ne_nil material resampled (builder.usable trajectories))
  have kept := (sortDescending_perm ScoredCandidate.total scored).length_eq
  apply List.length_pos_iff.mp
  simp only [Ranking.ofScored]
  omega

end Builder

end ManeuverRanking
