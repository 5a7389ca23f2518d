import ManeuverRanking.Analysis.Analyzer
import ManeuverRanking.Proofs.Candidate.Alternatives
import ManeuverRanking.Proofs.Candidate.Waiting
import ManeuverRanking.Proofs.Metric.Horizon

/-!
Lengths along a build. What is collected has one entry for each step of the horizon, so has the
resampled plan, and of the sampled trajectories only those go on that reach it. So every history that
an extraction checks is long enough, and no build and no tick fails for a length.
-/

namespace ManeuverRanking

variable {α : Type}

def Fault.OfLength : Fault α → Prop
  | .shortHistory .. | .elapsedTimes | .seriesLengths _ => True
  | _ => False

theorem Fault.OfData.not_ofLength {fault : Fault α} (data : fault.OfData) : ¬ fault.OfLength := by
  cases fault with
  | shortHistory => exact False.elim data
  | elapsedTimes => exact False.elim data
  | seriesLengths => exact False.elim data
  | _ => exact id

def Motion.Reaches (steps : Nat) (motion : Motion α) : Prop :=
  ∀ history ∈ motion.lengths, steps ≤ history.2

structure Material.Reaches (steps : Nat) (material : Material α) : Prop where
  objects : steps ≤ material.objects.length
  driven : ∀ motion ∈ material.driven, (Motion.driven motion).Reaches steps

theorem Motion.reaches_planned {steps : Nat} {points : List (PlanPoint α)}
    (long : steps ≤ points.length) : (Motion.planned points).Reaches steps := by
  simpa [Reaches, lengths] using long

theorem ensures_driven [Scalar α] (snapshot : Snapshot α) (horizon : Horizon α) :
    Ensures Fault.OfData (Outcome.Kept fun motion => (Motion.driven motion).Reaches horizon.steps)
      (snapshot.driven horizon) := by
  apply (ensures_collectFrom ..).whenReady
  intro odometry driving
  apply (ensures_collectFrom ..).whenReady
  intro acceleration felt
  apply (ensures_collectFrom ..).whenReady
  intro steering steered
  rintro _ ⟨⟩
  simp [Motion.Reaches, Motion.lengths, driving, felt, steered]

namespace Builder

variable [Scalar α] {builder : Builder α} {snapshot : Snapshot α}

theorem ensures_gather (builder : Builder α) (snapshot : Snapshot α) :
    Ensures (fun fault => ¬ fault.OfLength)
      (Outcome.Kept fun material => material.Reaches builder.horizon.steps)
      (builder.gather snapshot) := by
  have seeded : Ensures (fun fault => ¬ fault.OfLength) (fun _ => True) snapshot.seed := by
    cases found : snapshot.seed with
    | ok seed => trivial
    | error fault =>
        obtain ⟨gap, rfl⟩ := Snapshot.exists_gap_of_seed found
        exact id
  apply seeded.bind
  intro seed _
  apply Ensures.whenReady ((ensures_collectFrom ..).mono (fun _ => Fault.OfData.not_ofLength)
    fun _ => id)
  intro objects tracked
  split
  · apply Ensures.whenReady ((ensures_driven ..).mono (fun _ => Fault.OfData.not_ofLength)
      fun _ => id)
    rintro motion reaches _ ⟨⟩
    exact ⟨Nat.le_of_eq tracked.symm, fun _ held => Option.some.inj held ▸ reaches⟩
  · rintro _ ⟨⟩
    exact ⟨Nat.le_of_eq tracked.symm, nofun⟩

theorem supplied_scoreCandidate {candidate : Candidate α}
    (reaches : ∀ history ∈ candidate.lengths, builder.extractor.horizon.steps ≤ history.2) :
    Supplied (builder.scoreCandidate candidate) := by
  apply (Extractor.ensures_extract reaches (Extractor.operates_ofData ..)).bind
  intro metrics _
  exact (supplied_score ..).bind fun _ => trivial

theorem supplied_rank (same : builder.extractor.horizon = builder.horizon) (clock : Int)
    {material : Material α} (full : material.Reaches builder.horizon.steps)
    {resampled : List (PlanPoint α)} (walked : resampled.length = builder.horizon.steps)
    (trajectories : List (List (PlanPoint α))) :
    Supplied (builder.rank clock material resampled trajectories) := by
  unfold rank
  rw [scoreAll_eq_mapM]
  apply Ensures.bind (Ensures.mapM fun candidate member => supplied_scoreCandidate ?_)
  · exact fun _ _ => trivial
  · rw [same]
    obtain ⟨objects, ⟨driven, held, own⟩ | ⟨points, long, own⟩⟩ := mem_candidates_usable walked member
    · exact List.forall_mem_cons.mpr ⟨objects ▸ full.objects, own ▸ full.driven driven held⟩
    · exact List.forall_mem_cons.mpr
        ⟨objects ▸ full.objects, own ▸ Motion.reaches_planned (Nat.le_of_eq long.symm)⟩

def SamplerRaises (builder : Builder α) (requests : List (SamplerRequest α)) (fault : Fault α) :
    Prop :=
  ∃ sampler, builder.sampler = some sampler ∧ ∃ request ∈ requests, sampler request = .error fault

theorem ensures_offers (builder : Builder α) (seed : Seed α) :
    Ensures (fun fault => fault.OfLength → builder.SamplerRaises (builder.asked seed) fault)
      (fun _ => True) (builder.offers seed) := by
  have asked := supplied_request? builder seed
  cases found : builder.request? seed with
  | error fault =>
      rw [offers, found]
      exact fun length => absurd length (asked.of_error found).not_ofLength
  | ok ask =>
      cases ask with
      | none =>
          rw [offers, found]
          trivial
      | some ask =>
          obtain ⟨sampler, request⟩ := ask
          rw [offers_of_request? found]
          cases answer : sampler request with
          | ok offered => trivial
          | error fault =>
              exact fun _ => ⟨sampler, ((builder.request?_eq_some_iff ..).mp found).1, request,
                (builder.mem_asked_iff ..).mpr ⟨sampler, found⟩, answer⟩

theorem ensures_build (same : builder.extractor.horizon = builder.horizon) (snapshot : Snapshot α) :
    Ensures (fun fault => fault.OfLength →
        builder.SamplerRaises (builder.build snapshot).requests fault) (fun _ => True)
      (builder.build snapshot).outcome := by
  have gathers := builder.ensures_gather snapshot
  rw [build_outcome]
  cases gathered : builder.gather snapshot with
  | error fault => exact fun length => absurd length (gathers.of_error gathered)
  | ok outcome =>
      cases outcome with
      | notReady cause => trivial
      | ready material =>
          have full := gathers.of_ok gathered material rfl
          have walks := ensures_resample material.seed.plan material.seed.odometry builder.horizon
          change Ensures _ _ (builder.rankMaterial snapshot.clock material).outcome
          rw [rankMaterial_outcome]
          cases walked :
              material.seed.plan.resample material.seed.odometry builder.horizon with
          | error fault =>
              exact fun length => absurd length (walks.of_error walked).not_ofLength
          | ok resampled =>
              rw [requests_of_gather gathered walked]
              apply (builder.ensures_offers material.seed).bind
              intro offered _
              apply (supplied_rank same _ full (walks.of_ok walked) offered).mono
              · exact fun fault data length => absurd length data.not_ofLength
              · exact fun _ _ => trivial

theorem collect_of_driven_waits {horizon : Horizon α} {cause : Shortage}
    (waits : snapshot.driven horizon = .ok (.notReady cause)) :
    ∃ stream ∈ Snapshot.drivenStreams, snapshot.collect stream horizon = .ok (.notReady cause) := by
  rcases bind_whenReady_eq_notReady_iff.mp waits with odometry | ⟨_, -, waits⟩
  · exact ⟨.odometry, by decide, odometry⟩
  · rcases bind_whenReady_eq_notReady_iff.mp waits with acceleration | ⟨_, -, waits⟩
    · exact ⟨.acceleration, by decide, acceleration⟩
    · rcases bind_whenReady_eq_notReady_iff.mp waits with steering | ⟨_, -, waits⟩
      · exact ⟨.steering, by decide, steering⟩
      · cases waits

theorem collect_of_build_waits {cause : Shortage}
    (waits : (builder.build snapshot).outcome = .ok (.notReady cause)) :
    ∃ stream ∈ .objects :: Snapshot.drivenStreams,
      snapshot.collect stream builder.horizon = .ok (.notReady cause) := by
  rw [build_outcome] at waits
  rcases bind_whenReady_eq_notReady_iff.mp waits with gathered | ⟨material, -, ranked⟩
  · obtain ⟨seed, -, waits⟩ := (bind_eq_ok_iff ..).mp gathered
    rcases bind_whenReady_eq_notReady_iff.mp waits with objects | ⟨objects, -, waits⟩
    · exact ⟨.objects, List.mem_cons_self, objects⟩
    · split at waits
      · rcases bind_whenReady_eq_notReady_iff.mp waits with driven | ⟨motion, -, waits⟩
        · obtain ⟨stream, inside, short⟩ := collect_of_driven_waits driven
          exact ⟨stream, List.mem_cons_of_mem _ inside, short⟩
        · cases waits
      · cases waits
  · cases isReady_rankMaterial ranked

def withoutShort (builder : Builder α) : Builder α :=
  { builder with
    sampler := builder.sampler.map fun sampler request =>
      (sampler request).map (List.filter fun points => builder.horizon.steps ≤ points.length) }

theorem build_withoutShort (builder : Builder α) (snapshot : Snapshot α) :
    (builder.withoutShort.build snapshot).outcome = (builder.build snapshot).outcome := by
  apply DiffersShort.build
  refine ⟨⟨rfl, rfl, rfl, rfl, Option.isSome_map⟩, rfl, ?_⟩
  intro sampler own sampler' own' request _
  rw [withoutShort, own] at own'
  cases own'
  dsimp only
  cases sampler request with
  | error fault => rfl
  | ok offered => simp [Except.map]

/-- Neither a build nor a tick fails for a length, unless the sampler itself does. A build waits only
for a stream that runs out, and trajectories that end before the horizon make no difference to it. -/
theorem build_never_fails_for_length (same : builder.extractor.horizon = builder.horizon)
    (snapshot : Snapshot α) :
    let report := builder.build snapshot
    (∀ fault : Fault α, fault.OfLength → report.outcome = .error fault →
      builder.SamplerRaises report.requests fault) ∧
    (∀ analyzer : Analyzer α, analyzer.builder = builder → analyzer.snapshot = snapshot →
      ∀ fault : Fault α, fault.OfLength → analyzer.process.outcome = .error fault →
        builder.SamplerRaises report.requests fault) ∧
    (∀ cause, report.outcome = .ok (.notReady cause) →
      ∃ stream ∈ .objects :: Snapshot.drivenStreams,
        snapshot.collect stream builder.horizon = .ok (.notReady cause)) ∧
    (builder.withoutShort.build snapshot).outcome = report.outcome := by
  intro report
  have ensures := ensures_build same snapshot
  refine ⟨fun fault length failed => ensures.of_error failed length, ?_,
    fun _ => collect_of_build_waits, builder.build_withoutShort snapshot⟩
  rintro analyzer rfl rfl fault length failed
  unfold Analyzer.process at failed
  split at failed
  · split at failed
    · cases failed
    · cases failed
    · cases failed
    · rename_i other _ built
      cases failed
      exact ensures.of_error built length
  · cases failed

theorem rollingDrive_lengths : ∃ builder snapshot ranking analyzer,
    ofRolling detours true = builder ∧
    Snapshot.load recordStamp 0 0 rollingDrive.entries = .ok snapshot ∧
    builder.extractor.horizon = builder.horizon ∧
    (builder.build snapshot).outcome = .ok (.ready ranking) ∧
    (∃ sampler, builder.withoutShort.sampler = some sampler ∧
      ∀ request, sampler request = .ok (detours.eraseIdx 1)) ∧
    (builder.withoutShort.build snapshot).outcome = .ok (.ready ranking) ∧
    Analyzer.create snapshot builder 1 = .ok analyzer ∧
    analyzer.process.outcome = .ok (.ready ⟨0, ranking, false⟩) ∧
    ∀ fault, fault.OfLength → ¬ builder.SamplerRaises (builder.build snapshot).requests fault ∧
      analyzer.process.outcome ≠ .error fault := by
  obtain ⟨snapshot, loaded, clock, -, ready, -⟩ := rollingDrive_loads
  obtain ⟨ranking, ranked⟩ := ofRolling_builds loaded detours true
  obtain ⟨scripted, -, horizon, horizon'⟩ := ofRolling_fields detours true
  have same := horizon'.trans horizon.symm
  obtain ⟨-, ticks, -, dropped⟩ := build_never_fails_for_length same snapshot
  have silent (fault : Fault ℝ) : ¬ (ofRolling detours true).SamplerRaises
      ((ofRolling detours true).build snapshot).requests fault := by
    rintro ⟨sampler, own, request, -, raised⟩
    cases scripted.symm.trans own
    cases raised
  refine ⟨_, snapshot, ranking, ⟨snapshot, _, 1, none, by decide⟩, rfl, loaded, same, ranked, ?_,
    dropped.trans ranked, rfl, ?_, fun fault length => ⟨silent fault, fun failed =>
      silent fault (ticks _ rfl rfl fault length failed)⟩⟩
  · refine ⟨_, congrArg (Option.map _) scripted, fun request => ?_⟩
    rw [horizon]
    rfl
  · unfold Analyzer.process
    rw [if_pos ready, ranked, clock]

end Builder

end ManeuverRanking
