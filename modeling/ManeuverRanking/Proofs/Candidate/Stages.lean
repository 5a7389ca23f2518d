import ManeuverRanking.Proofs.Candidate.Scoring

/-!
A build taken apart into its stages: what is gathered from the snapshot, what the sampler is asked
and offers, and the ranking of both.
-/

namespace ManeuverRanking

variable {α : Type} [Scalar α]

theorem Snapshot.driven_eq_ready_iff (snapshot : Snapshot α) (horizon : Horizon α)
    (motion : DrivenMotion α) : snapshot.driven horizon = .ok (.ready motion) ↔
      snapshot.collect .odometry horizon = .ok (.ready motion.odometry) ∧
      snapshot.collect .acceleration horizon = .ok (.ready motion.acceleration) ∧
      snapshot.collect .steering horizon = .ok (.ready motion.steering) := by
  simp only [driven, bind_eq_ok_iff, whenReady_eq_ready_iff, pure, Except.pure, Except.ok.injEq,
    Outcome.ready.injEq]
  constructor
  · rintro ⟨_, odometry, _, rfl, _, acceleration, _, rfl, _, steering, _, rfl, rfl⟩
    exact ⟨odometry, acceleration, steering⟩
  · rintro ⟨odometry, acceleration, steering⟩
    exact ⟨_, odometry, _, rfl, _, acceleration, _, rfl, _, steering, _, rfl, rfl⟩

namespace Builder

theorem request?_eq_some_iff (builder : Builder α) (seed : Seed α) (sampler : Sampler α)
    (request : SamplerRequest α) : builder.request? seed = .ok (some (sampler, request)) ↔
      builder.sampler = some sampler ∧ 2 ≤ seed.plan.points.length ∧
        builder.requestFor seed = .ok request := by
  unfold request?
  cases builder.sampler with
  | none => simp
  | some own =>
      by_cases short : seed.plan.points.length < 2
      · simp [short, Nat.not_le.mpr short]
      · simp only [short, if_false, bind_eq_ok_iff, pure, Except.pure, Except.ok.injEq,
          Option.some.injEq, Prod.mk.injEq, Nat.not_lt.mp short, true_and]
        constructor
        · rintro ⟨asked, found, rfl, rfl⟩
          exact ⟨rfl, found⟩
        · rintro ⟨rfl, found⟩
          exact ⟨request, found, rfl, rfl⟩

theorem request?_eq_none_iff (builder : Builder α) (seed : Seed α) :
    builder.request? seed = .ok none ↔
      builder.sampler = none ∨ seed.plan.points.length < 2 := by
  unfold request?
  cases builder.sampler with
  | none => simp
  | some own =>
      by_cases short : seed.plan.points.length < 2
      · simp [short]
      · simp [short, bind_eq_ok_iff, pure, Except.pure]

theorem resolution_of_requestFor {builder : Builder α} {seed : Seed α} {request : SamplerRequest α}
    (found : builder.requestFor seed = .ok request) :
    request.lattice.resolution = builder.lattice.resolution := by
  simp only [requestFor, bind_eq_ok_iff, pure, Except.pure, Except.ok.injEq] at found
  obtain ⟨path, -, state, -, rfl⟩ := found
  rfl

def asked (builder : Builder α) (seed : Seed α) : List (SamplerRequest α) :=
  match builder.request? seed with
  | .ok (some (_, request)) => [request]
  | _ => []

def offers (builder : Builder α) (seed : Seed α) :
    Except (Fault α) (List (List (PlanPoint α))) := do
  match ← builder.request? seed with
  | none => return []
  | some (sampler, request) => sampler request

theorem offers_of_request? {builder : Builder α} {seed : Seed α} {sampler : Sampler α}
    {request : SamplerRequest α} (found : builder.request? seed = .ok (some (sampler, request))) :
    builder.offers seed = sampler request := by
  rw [offers, found]
  rfl

theorem mem_asked_iff (builder : Builder α) (seed : Seed α) (request : SamplerRequest α) :
    request ∈ builder.asked seed ↔
      ∃ sampler, builder.request? seed = .ok (some (sampler, request)) := by
  unfold asked
  split
  · rename_i sampler own found
    simp [found, eq_comm]
  · rename_i other
    simpa using fun sampler => other sampler request

theorem gather_eq_ready_iff (builder : Builder α) (snapshot : Snapshot α) (material : Material α) :
    builder.gather snapshot = .ok (.ready material) ↔ snapshot.seed = .ok material.seed ∧
      snapshot.collect .objects builder.horizon = .ok (.ready material.objects) ∧
      material.driven.isSome = builder.includeExecuted ∧
      ∀ motion ∈ material.driven, snapshot.driven builder.horizon = .ok (.ready motion) := by
  obtain ⟨seed, objects, driven⟩ := material
  simp only [gather, bind_eq_ok_iff, whenReady_eq_ready_iff]
  cases executed : builder.includeExecuted with
  | false =>
      simp only [Bool.false_eq_true, if_false, pure, Except.pure, Except.ok.injEq,
        Outcome.ready.injEq, Material.mk.injEq]
      constructor
      · rintro ⟨_, seeded, _, collected, _, rfl, rfl, rfl, rfl⟩
        exact ⟨seeded, collected, rfl, nofun⟩
      · rintro ⟨seeded, collected, none, -⟩
        rw [Option.isSome_eq_false_iff, Option.isNone_iff_eq_none] at none
        exact ⟨_, seeded, _, collected, _, rfl, rfl, rfl, none.symm⟩
  | true =>
      simp only [if_true, bind_eq_ok_iff, whenReady_eq_ready_iff, pure, Except.pure,
        Except.ok.injEq, Outcome.ready.injEq, Material.mk.injEq]
      constructor
      · rintro ⟨_, seeded, _, collected, _, rfl, _, drove, motion, rfl, rfl, rfl, rfl⟩
        refine ⟨seeded, collected, rfl, ?_⟩
        rintro _ ⟨⟩
        exact drove
      · rintro ⟨seeded, collected, some, drove⟩
        obtain ⟨motion, rfl⟩ := Option.isSome_iff_exists.mp some
        exact ⟨_, seeded, _, collected, _, rfl, _, drove motion rfl, _, rfl, rfl, rfl, rfl⟩

theorem rankMaterial_outcome (builder : Builder α) (clock : Int) (material : Material α) :
    (builder.rankMaterial clock material).outcome =
      (material.seed.plan.resample material.seed.odometry builder.horizon >>= fun resampled =>
        builder.offers material.seed >>= builder.rank clock material resampled) := by
  unfold rankMaterial offers
  cases material.seed.plan.resample material.seed.odometry builder.horizon with
  | error fault => rfl
  | ok resampled =>
      cases builder.request? material.seed with
      | error fault => rfl
      | ok ask => cases ask <;> rfl

theorem build_outcome (builder : Builder α) (snapshot : Snapshot α) :
    (builder.build snapshot).outcome =
      (builder.gather snapshot >>= fun gathered => whenReady gathered fun material =>
        (builder.rankMaterial snapshot.clock material).outcome) := by
  unfold build
  cases builder.gather snapshot with
  | error fault => rfl
  | ok gathered => cases gathered <;> rfl

theorem build_eq_ready_iff (builder : Builder α) (snapshot : Snapshot α) (ranking : Ranking α) :
    (builder.build snapshot).outcome = .ok (.ready ranking) ↔ ∃ material resampled offered,
      builder.gather snapshot = .ok (.ready material) ∧
      material.seed.plan.resample material.seed.odometry builder.horizon = .ok resampled ∧
      builder.offers material.seed = .ok offered ∧
      builder.rank snapshot.clock material resampled offered = .ok (.ready ranking) := by
  simp only [build_outcome, rankMaterial_outcome, bind_eq_ok_iff, whenReady_eq_ready_iff]
  constructor
  · rintro ⟨_, gathered, material, rfl, resampled, walked, offered, answered, ranked⟩
    exact ⟨material, resampled, offered, gathered, walked, answered, ranked⟩
  · rintro ⟨material, resampled, offered, gathered, walked, answered, ranked⟩
    exact ⟨_, gathered, material, rfl, resampled, walked, offered, answered, ranked⟩

theorem rank_of_build {builder : Builder α} {snapshot : Snapshot α} {ranking : Ranking α}
    (ready : (builder.build snapshot).outcome = .ok (.ready ranking)) :
    ∃ material resampled trajectories,
      builder.rank snapshot.clock material resampled trajectories = .ok (.ready ranking) := by
  obtain ⟨material, resampled, offered, -, -, -, ranked⟩ := (builder.build_eq_ready_iff ..).mp ready
  exact ⟨material, resampled, offered, ranked⟩

theorem build_ne_nil {builder : Builder α} {snapshot : Snapshot α} {ranking : Ranking α}
    (ready : (builder.build snapshot).outcome = .ok (.ready ranking)) : ranking.ranked ≠ [] := by
  obtain ⟨material, resampled, trajectories, ranked⟩ := rank_of_build ready
  exact rank_ne_nil ranked

theorem requests_build (builder : Builder α) (snapshot : Snapshot α) :
    (builder.build snapshot).requests = [] ∨
      ∃ material, builder.gather snapshot = .ok (.ready material) ∧
        (builder.build snapshot).requests = builder.asked material.seed := by
  unfold build
  cases gathered : builder.gather snapshot with
  | error fault => exact .inl rfl
  | ok outcome =>
      cases outcome with
      | notReady cause => exact .inl rfl
      | ready material =>
          unfold rankMaterial asked
          dsimp only
          split
          · exact .inl rfl
          · refine .inr ⟨material, rfl, ?_⟩
            split <;> rename_i found <;> rw [found]

theorem requests_of_gather {builder : Builder α} {snapshot : Snapshot α} {material : Material α}
    (gathered : builder.gather snapshot = .ok (.ready material)) {resampled : List (PlanPoint α)}
    (walked : material.seed.plan.resample material.seed.odometry builder.horizon = .ok resampled) :
    (builder.build snapshot).requests = builder.asked material.seed := by
  unfold build asked
  simp only [gathered, rankMaterial, walked]
  split <;> rename_i found <;> rw [found]

theorem length_requests_le (builder : Builder α) (snapshot : Snapshot α) :
    (builder.build snapshot).requests.length ≤ 1 := by
  rcases builder.requests_build snapshot with none | ⟨material, -, asks⟩
  · simp [none]
  · rw [asks, asked]
    split <;> simp

theorem exists_requestFor_of_mem {builder : Builder α} {snapshot : Snapshot α}
    {request : SamplerRequest α} (inside : request ∈ (builder.build snapshot).requests) :
    ∃ seed, builder.requestFor seed = .ok request := by
  rcases builder.requests_build snapshot with none | ⟨material, -, asks⟩
  · rw [none] at inside
    cases inside
  · rw [asks, mem_asked_iff] at inside
    obtain ⟨sampler, found⟩ := inside
    exact ⟨material.seed, ((builder.request?_eq_some_iff ..).mp found).2.2⟩

end Builder

end ManeuverRanking
