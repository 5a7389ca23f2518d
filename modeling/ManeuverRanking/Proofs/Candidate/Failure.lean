import ManeuverRanking.Proofs.Candidate.Waiting
import ManeuverRanking.Proofs.Loading
import ManeuverRanking.Proofs.Metric.Horizon
import ManeuverRanking.Proofs.Path.Reference

/-!
What a build over the real numbers fails for: a gap in its seed, and a plan that a sampler is offered
although no path goes through it. Nothing else fails on whole records.
-/

namespace ManeuverRanking

/-- A record that metrics can be taken of: velocities have three components, and the stamp of an
acceleration fits a word. -/
def Payload.Whole {α : Type} : (stream : Stream) → Payload α stream → Prop
  | .odometry, odometry => odometry.velocity.length = 3
  | .objects, tracked => ∀ object ∈ tracked.objects, object.velocity.length = 3
  | .acceleration, report => Extractor.fitsWord report.stamp = true
  | _, _ => True

def Snapshot.Whole {α : Type} (snapshot : Snapshot α) : Prop :=
  ∀ stream, ∀ record ∈ (snapshot.window stream).toList, Payload.Whole stream record.value

namespace Snapshot

variable {snapshot : Snapshot ℝ}

theorem Whole.queryAfter (whole : snapshot.Whole) {stream : Stream} {time : Int}
    {record : Stamped (Payload ℝ stream)}
    (found : (snapshot.window stream).queryAfter time = some record) :
    Payload.Whole stream record.value :=
  whole stream record (Array.mem_toList_iff.mpr (Array.mem_of_getElem? found))

theorem Whole.query (whole : snapshot.Whole) (stream : Stream) (step : Nat) (horizon : Horizon ℝ) :
    Yields (snapshot.query stream step (some horizon)) fun found =>
      ∀ record, found = some record → Payload.Whole stream record.value := by
  unfold Snapshot.query
  split
  · exact .ok fun record found => whole.queryAfter found
  · apply (Exact.completes_roundEven _).bind
    intro offset
    exact .ok fun record found => whole.queryAfter found

def Full (steps : Nat) (stream : Stream) (values : List (Payload ℝ stream)) : Prop :=
  values.length = steps ∧ ∀ value ∈ values, Payload.Whole stream value

theorem Whole.collectFrom (whole : snapshot.Whole) (stream : Stream) (horizon : Horizon ℝ)
    (step remaining : Nat) : Yields (snapshot.collectFrom stream horizon step remaining)
      (Outcome.Kept (Full remaining stream)) := by
  induction remaining generalizing step with
  | zero =>
      apply Yields.ok
      rintro _ ⟨⟩
      exact ⟨rfl, nofun⟩
  | succ remaining ih =>
      apply (whole.query stream step horizon).bind
      intro found whole
      cases found with
      | none => exact .ok nofun
      | some record =>
          apply (ih (step + 1)).map
          intro later full values ready
          obtain ⟨rest, same, rfl⟩ := (later.map_eq_ready_iff ..).mp ready
          obtain ⟨length, all⟩ := full rest same
          exact ⟨by rw [List.length_cons, length], List.forall_mem_cons.mpr ⟨whole record rfl, all⟩⟩

theorem Whole.collect (whole : snapshot.Whole) (stream : Stream) (horizon : Horizon ℝ) :
    Yields (snapshot.collect stream horizon) (Outcome.Kept (Full horizon.steps stream)) :=
  whole.collectFrom stream horizon 0 horizon.steps

end Snapshot

open Snapshot (Full)

structure DrivenMotion.Full (steps : Nat) (motion : DrivenMotion ℝ) : Prop where
  odometry : Snapshot.Full steps .odometry motion.odometry
  acceleration : Snapshot.Full steps .acceleration motion.acceleration
  steering : Snapshot.Full steps .steering motion.steering

structure Material.Full (steps : Nat) (material : Material ℝ) : Prop where
  points : material.seed.plan.points ≠ []
  spatial : material.seed.odometry.velocity.length = 3
  objects : Snapshot.Full steps .objects material.objects
  driven : ∀ motion ∈ material.driven, motion.Full steps

theorem Snapshot.Whole.driven {snapshot : Snapshot ℝ} (whole : snapshot.Whole)
    (horizon : Horizon ℝ) : Yields (snapshot.driven horizon)
      (Outcome.Kept (DrivenMotion.Full horizon.steps)) := by
  apply (whole.collect .odometry horizon).whenReady
  intro odometry first
  apply (whole.collect .acceleration horizon).whenReady
  intro acceleration second
  apply (whole.collect .steering horizon).whenReady
  intro steering third
  apply Yields.ok
  rintro _ ⟨⟩
  exact ⟨first, second, third⟩

namespace Builder

variable {builder : Builder ℝ} {snapshot : Snapshot ℝ}

theorem yields_gather (whole : snapshot.Whole) {seed : Seed ℝ} (seeded : snapshot.seed = .ok seed) :
    Yields (builder.gather snapshot) (Outcome.Kept (Material.Full builder.horizon.steps)) := by
  obtain ⟨odometry, acceleration, plan, driving, -, -, points, rfl⟩ :=
    (Snapshot.seed_eq_ok_iff ..).mp seeded
  have spatial : odometry.value.velocity.length = 3 := whole.queryAfter driving
  unfold gather
  rw [seeded]
  apply (whole.collect .objects builder.horizon).whenReady
  intro objects tracked
  split
  · apply (whole.driven builder.horizon).whenReady
    intro motion full
    apply Yields.ok
    rintro _ ⟨⟩
    refine ⟨points, spatial, tracked, ?_⟩
    rintro _ ⟨⟩
    exact full
  · apply Yields.ok
    rintro _ ⟨⟩
    exact ⟨points, spatial, tracked, nofun⟩

theorem gather_eq_error_iff (whole : snapshot.Whole) (fault : Fault ℝ) :
    builder.gather snapshot = .error fault ↔ snapshot.seed = .error fault := by
  cases seeded : snapshot.seed with
  | error gap =>
      unfold gather
      rw [seeded]
      simp [bind, Except.bind]
  | ok seed =>
      obtain ⟨outcome, done, -⟩ : Yields (builder.gather snapshot) _ := yields_gather whole seeded
      simp [done]

theorem yields_score (scorer : Scorer ℝ) {series : MetricSeries ℝ} (some : 0 < series.steps) :
    Completes (scorer.score series) := by
  unfold Scorer.score
  rw [if_neg (Nat.ne_of_gt some)]
  exact completes_ok _

def Reaching (steps : Nat) : Motion ℝ → Prop
  | .driven motion => motion.Full steps
  | .planned points => steps ≤ points.length
  | .unknown _ => False

theorem yields_extract {extractor : Extractor ℝ} {candidate : Candidate ℝ}
    (tracked : Snapshot.Full extractor.horizon.steps .objects candidate.objects)
    (reaching : Reaching extractor.horizon.steps candidate.motion) :
    Yields (extractor.extract candidate) fun series => series.Spans extractor.horizon.steps := by
  obtain ⟨length, moving⟩ := tracked
  have approaches (pose : Pose ℝ) {velocity : List ℝ} (spatial : velocity.length = 3)
      {tracked : TrackedObjects ℝ}
      (inside : tracked ∈ candidate.objects.take extractor.horizon.steps) :
      Completes (collisionAt pose velocity tracked) :=
    completes_collisionAt pose spatial (moving tracked (List.mem_of_mem_take inside))
  rw [← ensures_false_iff]
  apply Extractor.ensures_extract
  · refine List.forall_mem_cons.mpr ⟨Nat.le_of_eq length.symm, ?_⟩
    cases own : candidate.motion with
    | driven motion =>
        rw [own] at reaching
        simp [Motion.lengths, reaching.odometry.1, reaching.acceleration.1, reaching.steering.1]
    | planned points =>
        rw [own] at reaching
        simpa [Motion.lengths, Reaching] using reaching
    | unknown kind =>
        rw [own] at reaching
        exact reaching.elim
  · unfold Extractor.Operates
    simp only [ensures_false_iff, or_false]
    cases own : candidate.motion with
    | driven motion =>
        rw [own] at reaching
        have spatial (entry : Odometry ℝ)
            (inside : entry ∈ motion.odometry.take extractor.horizon.steps) :
            entry.velocity.length = 3 :=
          reaching.odometry.2 entry (List.mem_of_mem_take inside)
        refine ⟨fun entry inside => completes_speed (spatial entry inside),
          fun report inside => reaching.acceleration.2 report (List.mem_of_mem_take inside), ?_⟩
        rintro ⟨entry, tracked⟩ member
        obtain ⟨inside, beside⟩ := List.of_mem_zip member
        exact approaches entry.pose (spatial entry inside) beside
    | planned points =>
        rintro ⟨point, tracked⟩ member
        exact approaches point.pose rfl (List.of_mem_zip member).2
    | unknown kind =>
        rw [own] at reaching
        exact reaching

theorem completes_scoreCandidate {candidate : Candidate ℝ}
    (same : builder.extractor.horizon = builder.horizon)
    (tracked : Snapshot.Full builder.horizon.steps .objects candidate.objects)
    (reaching : Reaching builder.horizon.steps candidate.motion) :
    Completes (builder.scoreCandidate candidate) := by
  rw [← same] at tracked reaching
  unfold scoreCandidate
  apply (yields_extract tracked reaching).bind
  intro series spans
  have filled : 0 < series.steps := by
    rw [MetricSeries.steps, spans.lateral]
    exact builder.extractor.horizon.steps_pos
  apply (yields_score builder.scorer filled).bind
  exact fun _ => completes_ok _

theorem completes_rank (same : builder.extractor.horizon = builder.horizon) (clock : Int)
    {material : Material ℝ} (full : material.Full builder.horizon.steps)
    {resampled : List (PlanPoint ℝ)} (walked : resampled.length = builder.horizon.steps)
    (trajectories : List (List (PlanPoint ℝ))) :
    Completes (builder.rank clock material resampled trajectories) := by
  have each : ∀ candidate ∈ candidates material resampled (builder.usable trajectories),
      Completes (builder.scoreCandidate candidate) := by
    intro candidate member
    obtain ⟨objects, ⟨driven, held, own⟩ | ⟨points, long, own⟩⟩ := mem_candidates_usable walked member
    · exact completes_scoreCandidate same (objects ▸ full.objects) (own ▸ full.driven driven held)
    · exact completes_scoreCandidate same (objects ▸ full.objects) (own ▸ Nat.le_of_eq long.symm)
  unfold rank
  rw [scoreAll_eq_mapM]
  exact (Yields.mapM each).bind fun scored _ => completes_ok _

def Willing (builder : Builder ℝ) : Prop :=
  ∀ sampler, builder.sampler = some sampler → ∀ request, Completes (sampler request)

theorem willing_of_scripted {script : List (List (PlanPoint ℝ))}
    (scripted : builder.sampler = some (Sampler.scripted script)) : builder.Willing := by
  intro sampler own request
  cases scripted.symm.trans own
  exact completes_ok _

/-- A sampler is there for a plan of two points at least, but no path goes through what is kept of
these points. -/
def Strays (builder : Builder ℝ) (seed : Seed ℝ) (fault : Fault ℝ) : Prop :=
  builder.sampler.isSome ∧ 2 ≤ seed.plan.points.length ∧
    ReferencePath.Impassable (ReferencePath.kept seed.plan.points) fault

theorem requestFor_eq_error {seed : Seed ℝ} (some : seed.plan.points ≠ []) {fault : Fault ℝ}
    (blocked : ReferencePath.Impassable (ReferencePath.kept seed.plan.points) fault) :
    builder.requestFor seed = .error fault := by
  unfold requestFor
  dsimp only
  rw [ReferencePath.throughPlan_eq some, ReferencePath.throughDistinct_eq_error blocked]
  rfl

theorem completes_requestFor {seed : Seed ℝ} (some : seed.plan.points ≠ [])
    (spatial : seed.odometry.velocity.length = 3)
    (passable : ∀ fault, ¬ ReferencePath.Impassable (ReferencePath.kept seed.plan.points) fault) :
    Completes (builder.requestFor seed) := by
  unfold requestFor
  dsimp only
  rw [ReferencePath.throughPlan_eq some]
  apply (ReferencePath.yields_throughDistinct passable _).bind
  intro path wide
  exact (ReferencePath.completes_ofEgo wide spatial _).bind fun _ => completes_ok _

theorem offers_eq_error {seed : Seed ℝ} {fault : Fault ℝ} (strays : builder.Strays seed fault) :
    builder.offers seed = .error fault := by
  obtain ⟨present, two, blocked⟩ := strays
  obtain ⟨sampler, own⟩ := Option.isSome_iff_exists.mp present
  have some : seed.plan.points ≠ [] := List.length_pos_iff.mp (Nat.lt_of_lt_of_le (by decide) two)
  unfold offers request?
  rw [own]
  dsimp only
  rw [if_neg (Nat.not_lt.mpr two), requestFor_eq_error some blocked]
  rfl

theorem completes_offers (willing : builder.Willing) {seed : Seed ℝ}
    (spatial : seed.odometry.velocity.length = 3)
    (straight : ∀ fault, ¬ builder.Strays seed fault) : Completes (builder.offers seed) := by
  unfold offers request?
  split
  · exact completes_ok _
  · rename_i sampler own
    split
    · exact completes_ok _
    · rename_i long
      have two := Nat.not_lt.mp long
      have some : seed.plan.points ≠ [] :=
        List.length_pos_iff.mp (Nat.lt_of_lt_of_le (by decide) two)
      obtain ⟨request, asked, -⟩ : Completes (builder.requestFor seed) :=
        completes_requestFor some spatial fun fault blocked =>
          straight fault ⟨by rw [own]; rfl, two, blocked⟩
      rw [asked]
      exact willing sampler own request

theorem rankMaterial_fails_iff (same : builder.extractor.horizon = builder.horizon)
    (willing : builder.Willing) (clock : Int) {material : Material ℝ}
    (full : material.Full builder.horizon.steps) (fault : Fault ℝ) :
    (builder.rankMaterial clock material).outcome = .error fault ↔
      builder.Strays material.seed fault := by
  obtain ⟨resampled, walked, length⟩ :=
    yields_resample full.points material.seed.odometry builder.horizon
  rw [rankMaterial_outcome, walked]
  constructor
  · intro failed
    by_contra other
    have straight : ∀ cause, ¬ builder.Strays material.seed cause := by
      intro cause strays
      rw [offers_eq_error strays] at failed
      cases failed
      exact other strays
    obtain ⟨trajectories, offered, -⟩ := completes_offers willing full.spatial straight
    obtain ⟨ranking, ranked, -⟩ := completes_rank same clock full length trajectories
    rw [offered] at failed
    cases ranked.symm.trans failed
  · intro strays
    rw [offers_eq_error strays]
    rfl

theorem build_fails_iff (same : builder.extractor.horizon = builder.horizon)
    (willing : builder.Willing) (whole : snapshot.Whole) (fault : Fault ℝ) :
    (builder.build snapshot).outcome = .error fault ↔ snapshot.seed = .error fault ∨
      ∃ material, builder.gather snapshot = .ok (.ready material) ∧
        builder.Strays material.seed fault := by
  rw [build_outcome]
  cases seeded : snapshot.seed with
  | error gap =>
      rw [(gather_eq_error_iff whole gap).mpr seeded]
      simp [bind, Except.bind]
  | ok seed =>
      obtain ⟨gathered, done, kept⟩ : Yields (builder.gather snapshot) _ :=
        yields_gather whole seeded
      rw [done]
      cases gathered with
      | notReady cause => simp [bind, Except.bind, whenReady]
      | ready material =>
          have fails := rankMaterial_fails_iff same willing snapshot.clock (kept material rfl) fault
          simp [bind, Except.bind, whenReady, fails]

/-- On whole records a build fails for a gap in its seed, or for a plan of two points at least that a
sampler is to be offered and no path goes through. A plan whose points all coincide is one of these. -/
theorem build_eq_error_iff (same : builder.extractor.horizon = builder.horizon)
    (willing : builder.Willing) (whole : snapshot.Whole) :
    (∀ fault, (builder.build snapshot).outcome = .error fault ↔
      (∃ gap, fault = .noSeed gap ∧ snapshot.seed = .error fault) ∨
        ∃ material, builder.gather snapshot = .ok (.ready material) ∧
          builder.sampler.isSome ∧ 2 ≤ material.seed.plan.points.length ∧
          ReferencePath.Impassable (ReferencePath.kept material.seed.plan.points) fault) ∧
    ∀ material, builder.gather snapshot = .ok (.ready material) → builder.sampler.isSome →
      2 ≤ material.seed.plan.points.length →
      (∃ place, ∀ point ∈ material.seed.plan.points, point.pose.planarPosition = place) →
      (builder.build snapshot).outcome = .error .tooFewPathPoints := by
  constructor
  · intro fault
    rw [build_fails_iff same willing whole]
    apply or_congr_left
    constructor
    · intro failed
      obtain ⟨gap, rfl⟩ := Snapshot.exists_gap_of_seed failed
      exact ⟨gap, rfl, failed⟩
    · rintro ⟨gap, -, failed⟩
      exact failed
  · rintro material gathered present two ⟨place, coincide⟩
    rw [build_fails_iff same willing whole]
    exact .inr ⟨material, gathered, present, two, ReferencePath.impassable_of_coincide coincide⟩

noncomputable def standing (ahead : ℝ) : Material ℝ where
  seed :=
    let point (x : ℝ) : PlanPoint ℝ := ⟨⟨⟨x, 0, 0⟩, .identity⟩, 0, 0, 0, 0⟩
    ⟨⟨1, ⟨⟨0, 0, 0⟩, .identity⟩, [0, 0, 0]⟩, ⟨1, 0, 0⟩, ⟨1, [point 0, point ahead]⟩⟩
  objects := [⟨1, []⟩]
  driven := none

noncomputable def standingDrive (ahead : ℝ) : DriveLog ℝ where
  name := "standing"
  records := { PerStream.ofFn (fun _ => []) with
    odometry := [(standing ahead).seed.odometry]
    objects := (standing ahead).objects
    acceleration := [(standing ahead).seed.acceleration]
    plan := [(standing ahead).seed.plan] }

noncomputable def ofStanding : Builder ℝ where
  horizon := ⟨1, 1, by decide, one_pos⟩
  extractor := ⟨Extractor.standardWheelBase, ⟨1, 1, by decide, one_pos⟩⟩
  scorer := ⟨.standard, by
    simp [ScoreSettings.fault?, ScoreSettings.standard, Criterion.all, PerCriterion.get]
    norm_num⟩
  sampler := some (Sampler.scripted [])
  lattice := .standard
  includeExecuted := false
  workers := none

theorem standingDrive_ordered (ahead : ℝ) : (standingDrive ahead).Ordered recordStamp := by
  constructor
  · intro stream value member
    cases stream with
    | transforms => cases member
    | _ => exact ⟨_, rfl⟩
  · intro stream
    cases stream <;>
      simp [DriveLog.stamped, stampAll, standingDrive, standing, PerStream.get, PerStream.ofFn,
        recordStamp]

theorem standingDrive_loads (ahead : ℝ) : ∃ snapshot,
    Snapshot.load recordStamp 0 0 (standingDrive ahead).entries = .ok snapshot ∧ snapshot.Whole ∧
      ofStanding.gather snapshot = .ok (.ready (standing ahead)) := by
  obtain ⟨snapshot, loaded, clock, windows⟩ := (standingDrive_ordered ahead).load_eq_ok
    (entriesOf_entries _) 0 (Int.le_refl 0)
  have current (stream : Stream) : snapshot.current stream =
      ((standingDrive ahead).stamped recordStamp stream).find? fun record =>
        decide (0 < record.stamp) := by
    rw [Snapshot.current, clock, (windows stream).1.queryAfter_eq_find?, (windows stream).2]
  refine ⟨snapshot, loaded, ?_, ?_⟩
  · intro stream record member
    rw [(windows stream).2] at member
    cases stream <;>
      simp_all [DriveLog.stamped, stampAll, standingDrive, standing, PerStream.get, PerStream.ofFn,
        recordStamp, Payload.Whole]
    decide
  · rw [gather_eq_ready_iff]
    refine ⟨?_, ?_, rfl, ?_⟩
    · rw [Snapshot.seed_eq_ok_iff]
      exact ⟨_, _, _, (current .odometry).trans rfl, (current .acceleration).trans rfl,
        (current .plan).trans rfl, List.cons_ne_nil _ _, rfl⟩
    · have tracked : snapshot.current .objects = some ⟨1, ⟨1, []⟩⟩ := (current .objects).trans rfl
      simp only [Snapshot.collect, ofStanding, Snapshot.collectFrom, Snapshot.query, tracked,
        bind, Except.bind, pure, Except.pure]
      rfl
    · intro motion driven
      cases driven

theorem passable_stride {points : List (PlanPoint ℝ)}
    (ahead : (points.map fun point => point.pose.planarPosition) = [⟨0, 0⟩, ⟨1, 0⟩])
    (fault : Fault ℝ) : ¬ ReferencePath.Impassable (ReferencePath.kept points) fault := by
  have step : ((⟨1, 0⟩ : Vec2 ℝ).sub ⟨0, 0⟩).norm = 1 := by
    simp [Vec2.norm, Vec2.sub, Vec2.dot, Scalar.sqrt]
  have apart : (ReferencePath.leastStep : ℝ) < 1 := by
    unfold ReferencePath.leastStep
    norm_num
  have kept : ReferencePath.kept points = [⟨0, 0⟩, ⟨1, 0⟩] := by
    simp [ReferencePath.kept, ahead, ReferencePath.distinct, ReferencePath.distinctAfter, step,
      apart]
  rw [kept]
  rintro (few | ⟨-, halts⟩)
  · simp at few
  · simp at halts

theorem standingDrive_builds : ∃ snapshot,
    Snapshot.load recordStamp 0 0 (standingDrive 1).entries = .ok snapshot ∧
    ofStanding.gather snapshot = .ok (.ready (standing 1)) ∧
    ∃ outcome, (ofStanding.build snapshot).outcome = .ok outcome := by
  obtain ⟨snapshot, loaded, whole, gathered⟩ := standingDrive_loads 1
  refine ⟨snapshot, loaded, gathered, ?_⟩
  cases built : (ofStanding.build snapshot).outcome with
  | ok outcome => exact ⟨outcome, rfl⟩
  | error fault =>
      rcases ((build_eq_error_iff rfl (willing_of_scripted rfl) whole).1 fault).mp built with
        ⟨gap, -, failed⟩ | ⟨material, found, -, -, blocked⟩
      · cases failed.symm.trans ((gather_eq_ready_iff ..).mp gathered).1
      · rw [gathered] at found
        cases found
        exact (passable_stride rfl fault blocked).elim

theorem standingDrive_halts : ∃ snapshot,
    Snapshot.load recordStamp 0 0 (standingDrive 0).entries = .ok snapshot ∧
    ofStanding.gather snapshot = .ok (.ready (standing 0)) ∧ snapshot.Whole ∧
    ofStanding.extractor.horizon = ofStanding.horizon ∧ 0 < ofStanding.extractor.wheelBase ∧
    ofStanding.Willing ∧ (ofStanding.build snapshot).outcome = .error .tooFewPathPoints := by
  obtain ⟨snapshot, loaded, whole, gathered⟩ := standingDrive_loads 0
  refine ⟨snapshot, loaded, gathered, whole, rfl, ?_, (willing_of_scripted rfl), ?_⟩
  · simp only [ofStanding, Extractor.standardWheelBase]
    norm_num
  · rw [build_fails_iff rfl (willing_of_scripted rfl) whole]
    have coincide :
        ∀ point ∈ (standing 0).seed.plan.points, point.pose.planarPosition = ⟨0, 0⟩ := by
      simp [standing, Pose.planarPosition]
    exact .inr ⟨_, gathered, rfl, Nat.le_refl 2, ReferencePath.impassable_of_coincide coincide⟩

end Builder

end ManeuverRanking
