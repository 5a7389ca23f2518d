import Mathlib.Analysis.SpecialFunctions.Complex.Arg
import ManeuverRanking.Proofs.Candidate.Failure
import ManeuverRanking.Proofs.Candidate.Order
import ManeuverRanking.Proofs.Horizon.Offsets

/-!
What a build comes to, and who is in its ranking: the executed motion, the current plan, and the
sampled trajectories that reach the horizon, numbered in this order.
-/

namespace ManeuverRanking

variable {α : Type}

theorem Snapshot.Reachable.appendAll {snapshot full : Snapshot α} (reached : snapshot.Reachable)
    {entries : List (Entry α)} (done : snapshot.appendAll entries = .ok full) : full.Reachable := by
  induction entries generalizing snapshot with
  | nil =>
      cases done
      exact reached
  | cons entry rest ih =>
      unfold Snapshot.appendAll at done
      split at done
      · cases done
      · rename_i next record appended
        exact ih (reached.append appended) done

theorem Snapshot.Reachable.load {keys : StampKeys α} {clock span : Int} {entries : List (Entry α)}
    {full : Snapshot α} (done : Snapshot.load keys clock span entries = .ok full) :
    full.Reachable := by
  unfold Snapshot.load at done
  split at done
  · cases done
  · rename_i fresh created
    exact (Reachable.create created).appendAll done

namespace Builder

section

variable [Scalar α]

/-- What there is to choose from: the answer to the one request, if there is a sampler and the plan
has at least two points, and nothing otherwise. -/
def Offered (builder : Builder α) (plan : Plan α) (requests : List (SamplerRequest α))
    (offered : List (List (PlanPoint α))) : Prop :=
  ((builder.sampler = none ∨ plan.points.length < 2) ∧ requests = [] ∧ offered = []) ∨
    2 ≤ plan.points.length ∧ ∃ sampler request, builder.sampler = some sampler ∧
      requests = [request] ∧ sampler request = .ok offered

theorem offered_of_offers {builder : Builder α} {seed : Seed α}
    {offered : List (List (PlanPoint α))} (answered : builder.offers seed = .ok offered) :
    builder.Offered seed.plan (builder.asked seed) offered := by
  simp only [offers, bind_eq_ok_iff] at answered
  obtain ⟨ask, found, answered⟩ := answered
  cases ask with
  | none =>
      cases answered
      refine .inl ⟨(builder.request?_eq_none_iff seed).mp found, ?_, rfl⟩
      rw [asked, found]
  | some ask =>
      obtain ⟨sampler, request⟩ := ask
      obtain ⟨own, long, -⟩ := (builder.request?_eq_some_iff ..).mp found
      refine .inr ⟨long, sampler, request, own, ?_, answered⟩
      rw [asked, found]

/-- The candidates of a ranking in the order of generation, told by what the snapshot holds and by
what the sampler offers. -/
structure Lineup (builder : Builder α) (snapshot : Snapshot α)
    (requests : List (SamplerRequest α)) (members : List (Candidate α)) : Prop where
  numbered : members.map Candidate.generation = List.range members.length
  judged : ∃ objects, snapshot.collect .objects builder.horizon = .ok (.ready objects) ∧
    ∀ member ∈ members, member.objects = objects
  listed : ∃ odometry plan driven resampled offered,
    snapshot.firstLater .odometry = some odometry ∧ snapshot.firstLater .plan = some plan ∧
    Option.isSome driven = builder.includeExecuted ∧
    (∀ motion ∈ driven,
      snapshot.collect .odometry builder.horizon = .ok (.ready motion.odometry) ∧
      snapshot.collect .acceleration builder.horizon = .ok (.ready motion.acceleration) ∧
      snapshot.collect .steering builder.horizon = .ok (.ready motion.steering)) ∧
    plan.value.resample odometry.value builder.horizon = .ok resampled ∧
    builder.Offered plan.value requests offered ∧
    members.map (fun member => (member.origin, member.motion)) =
      driven.toList.map (fun motion => (Origin.executed, Motion.driven motion)) ++
        (Origin.current, Motion.planned resampled) ::
          (offered.filter fun points => decide (builder.horizon.steps ≤ points.length)).map
            fun points => (Origin.sampled, Motion.planned (points.take builder.horizon.steps))

theorem lineup_of_build {span : Nat} {snapshot : Snapshot α} (kept : snapshot.Kept span)
    {builder : Builder α} {ranking : Ranking α}
    (ready : (builder.build snapshot).outcome = .ok (.ready ranking)) :
    ranking.clock = snapshot.clock ∧ ∃ members,
      (ranking.ranked.map ScoredCandidate.candidate).Perm members ∧
      builder.Lineup snapshot (builder.build snapshot).requests members := by
  obtain ⟨material, resampled, offered, gathered, walked, answered, ranked⟩ :=
    (builder.build_eq_ready_iff ..).mp ready
  have requests := requests_of_gather gathered walked
  obtain ⟨seeded, objects, executed, drove⟩ := (builder.gather_eq_ready_iff ..).mp gathered
  obtain ⟨odometry, acceleration, plan, nearest, -, planned, -, seed⟩ :=
    (snapshot.seed_eq_ok_iff _).mp seeded
  rw [kept.current_eq] at nearest planned
  simp only [rank, bind_eq_ok_iff, pure, Except.pure, Except.ok.injEq, Outcome.ready.injEq] at ranked
  obtain ⟨scored, done, rfl⟩ := ranked
  have listed := scoreAll_candidates done
  refine ⟨rfl, candidates material resampled (builder.usable offered), ?_, ?_⟩
  · rw [← listed]
    exact (sortDescending_perm _ _).map _
  · constructor
    · exact candidates_generation ..
    · refine ⟨material.objects, objects, ?_⟩
      intro member inside
      obtain ⟨entry, -, rfl⟩ := List.mem_map.mp inside
      rfl
    · refine ⟨odometry, plan, material.driven, resampled, offered, nearest, planned, executed,
        ?_, ?_, ?_, ?_⟩
      · intro motion inside
        exact (snapshot.driven_eq_ready_iff ..).mp (drove motion inside)
      · rw [← seed] at walked
        exact walked
      · rw [requests]
        have choice := offered_of_offers answered
        rw [← seed] at choice ⊢
        exact choice
      · rw [candidates_motions, motions, usable, List.map_map]
        rfl

theorem Lineup.exists_current {builder : Builder α} {snapshot : Snapshot α}
    {requests : List (SamplerRequest α)} {members : List (Candidate α)}
    (lineup : builder.Lineup snapshot requests members) :
    ∃ member ∈ members, member.origin = .current := by
  obtain ⟨_, _, _, resampled, _, _, _, _, _, _, _, listed⟩ := lineup.listed
  have inside : (Origin.current, Motion.planned resampled) ∈
      members.map fun member => (member.origin, member.motion) := by
    rw [listed]
    exact List.mem_append_right _ List.mem_cons_self
  obtain ⟨member, found, same⟩ := List.mem_map.mp inside
  exact ⟨member, found, congrArg Prod.fst same⟩

theorem Lineup.exists_best {builder : Builder α} {snapshot : Snapshot α}
    {requests : List (SamplerRequest α)} {members : List (Candidate α)}
    (lineup : builder.Lineup snapshot requests members) {ranking : Ranking α}
    (same : (ranking.ranked.map ScoredCandidate.candidate).Perm members) :
    (∃ best, ranking.best = .ok best) ∧ (ranking.bestOf? .current).isSome = true := by
  obtain ⟨member, inside, current⟩ := lineup.exists_current
  obtain ⟨scored, ranked, rfl⟩ := List.mem_map.mp (same.mem_iff.mpr inside)
  constructor
  · unfold Ranking.best
    split
    · rename_i empty
      rw [empty] at ranked
      cases ranked
    · exact ⟨_, rfl⟩
  · rw [Ranking.bestOf?, List.find?_isSome]
    exact ⟨scored, ranked, decide_eq_true current⟩

theorem Lineup.of_scripted {builder : Builder α} {snapshot : Snapshot α}
    {requests : List (SamplerRequest α)} {members : List (Candidate α)}
    (lineup : builder.Lineup snapshot requests members) {script : List (List (PlanPoint α))}
    (scripted : builder.sampler = some (Sampler.scripted script)) {plan : Stamped (Plan α)}
    (planned : snapshot.firstLater .plan = some plan) (long : 2 ≤ plan.value.points.length) :
    (∃ request, requests = [request]) ∧ ∃ driven resampled,
      Option.isSome driven = builder.includeExecuted ∧
      members.map (fun member => (member.origin, member.motion)) =
        driven.toList.map (fun motion => (Origin.executed, Motion.driven motion)) ++
          (Origin.current, Motion.planned resampled) ::
            (script.filter fun points => decide (builder.horizon.steps ≤ points.length)).map
              fun points => (Origin.sampled, Motion.planned (points.take builder.horizon.steps)) := by
  obtain ⟨_, other, driven, resampled, offered, -, planned', executed, -, -, choice, listed⟩ :=
    lineup.listed
  cases planned.symm.trans planned'
  rcases choice with ⟨none | short, -, -⟩ | ⟨-, sampler, request, own, asked, answered⟩
  · cases scripted.symm.trans none
  · exact absurd long (Nat.not_le.mpr short)
  · cases scripted.symm.trans own
    cases answered
    exact ⟨⟨request, asked⟩, driven, resampled, executed, listed⟩

/-- No fault but gaps in the seed, and none of these from the sampler. -/
structure Undisturbed (builder : Builder α) (snapshot : Snapshot α) : Prop where
  quiet : builder.QuietOn (builder.build snapshot).requests
  onlyGaps : ∀ fault, (builder.build snapshot).outcome = .error fault →
    ∃ gap, fault = .noSeed gap

/-- A build fails for a gap if the seed has one, else it waits if a history runs out, and else it
ranks the lineup of the snapshot. -/
structure Decided (builder : Builder α) (snapshot : Snapshot α) : Prop where
  gap : (∃ gap, (builder.build snapshot).outcome = .error (.noSeed gap)) ↔ snapshot.LacksSeed
  waits : ¬ snapshot.LacksSeed →
    ((∃ cause, (builder.build snapshot).outcome = .ok (.notReady cause)) ↔
      snapshot.RunsShort builder.horizon builder.includeExecuted)
  ready : ¬ snapshot.LacksSeed → ¬ snapshot.RunsShort builder.horizon builder.includeExecuted →
    ∃ ranking, (builder.build snapshot).outcome = .ok (.ready ranking) ∧
      ranking.clock = snapshot.clock ∧
      (∃ members, (ranking.ranked.map ScoredCandidate.candidate).Perm members ∧
        builder.Lineup snapshot (builder.build snapshot).requests members) ∧
      (∃ best, ranking.best = .ok best) ∧ (ranking.bestOf? .current).isSome = true

theorem Undisturbed.decided {builder : Builder α} {snapshot : Snapshot α} {span : Nat}
    (undisturbed : builder.Undisturbed snapshot) (kept : snapshot.Kept span) :
    builder.Decided snapshot := by
  have gaps : (∃ gap, (builder.build snapshot).outcome = .error (.noSeed gap)) ↔
      snapshot.LacksSeed := by
    simp only [build_eq_noSeed_iff undisturbed.quiet, kept.lacksSeed_iff]
  have done (seeded : ¬ snapshot.LacksSeed) :
      ∃ outcome, (builder.build snapshot).outcome = .ok outcome := by
    cases found : (builder.build snapshot).outcome with
    | ok outcome => exact ⟨outcome, rfl⟩
    | error fault =>
        obtain ⟨gap, rfl⟩ := undisturbed.onlyGaps fault found
        exact absurd (gaps.mp ⟨gap, found⟩) seeded
  refine ⟨gaps, ?_, ?_⟩
  · intro seeded
    obtain ⟨outcome, found⟩ := done seeded
    rw [← build_waits_iff kept found, found]
    cases outcome <;> simp [Outcome.isReady]
  · intro seeded full
    obtain ⟨outcome, found⟩ := done seeded
    cases outcome with
    | notReady cause => exact absurd ((build_waits_iff kept found).mp rfl) full
    | ready ranking =>
        obtain ⟨clock, members, same, lineup⟩ := lineup_of_build kept found
        exact ⟨ranking, found, clock, ⟨members, same, lineup⟩, lineup.exists_best same⟩

theorem create_fst (horizon : Horizon α) (extractor : Extractor α) (scorer : Scorer α)
    (sampler : Option (Sampler α)) (lattice : LatticeSettings α) (withDriven : Bool)
    (workers : Option Int) : ∃ fitted : LatticeSettings α,
      (create horizon extractor scorer sampler lattice withDriven workers).1 =
        ⟨horizon, extractor, scorer, sampler, fitted, withDriven, workers⟩ := by
  unfold create
  split <;> exact ⟨_, rfl⟩

theorem resolution_create [Comparable α] (horizon : Horizon α) (extractor : Extractor α)
    (scorer : Scorer α) (sampler : Option (Sampler α)) (lattice : LatticeSettings α)
    (withDriven : Bool) (workers : Option Int) {builder : Builder α}
    (made : (create horizon extractor scorer sampler lattice withDriven workers).1 = builder) :
    builder.lattice.resolution = builder.horizon.interval := by
  unfold create at made
  split at made
  · rename_i same
    subst made
    exact Comparable.eq_of_sameAs horizon.interval_pos same
  · subst made
    rfl

/-- Whatever a builder is created with, its builds ask the sampler at most once, at the interval of
the horizon. A build that nothing disturbs fails for a gap, waits, or ranks its lineup. -/
theorem build_of_create [Comparable α] (horizon : Horizon α) (extractor : Extractor α)
    (scorer : Scorer α) (sampler : Option (Sampler α)) (lattice : LatticeSettings α)
    (withDriven : Bool) (workers : Option Int) {builder : Builder α}
    (made : (create horizon extractor scorer sampler lattice withDriven workers).1 = builder)
    {snapshot : Snapshot α} (reached : snapshot.Reachable) :
    (builder.build snapshot).requests.length ≤ 1 ∧
    (∀ request ∈ (builder.build snapshot).requests,
      request.lattice.resolution = builder.horizon.interval) ∧
    (builder.Undisturbed snapshot → builder.Decided snapshot) := by
  obtain ⟨span, kept⟩ := reached.kept
  refine ⟨builder.length_requests_le snapshot, ?_, fun undisturbed => undisturbed.decided kept⟩
  intro request inside
  obtain ⟨seed, found⟩ := exists_requestFor_of_mem inside
  rw [resolution_of_requestFor found]
  exact resolution_create horizon extractor scorer sampler lattice withDriven workers made

end

noncomputable def rollingDrive : DriveLog ℝ where
  name := "rolling"
  records :=
    let pose (x : ℝ) : Pose ℝ := ⟨⟨x, 0, 0⟩, .identity⟩
    let stamps : List Int := [1, 500000001]
    { transforms := stamps.map fun stamp => ⟨[⟨stamp, "map", "base_link", pose 0⟩]⟩
      odometry := stamps.map fun stamp => ⟨stamp, pose 0, [1, 0, 0]⟩
      objects := stamps.map fun stamp => ⟨stamp, []⟩
      acceleration := stamps.map fun stamp => ⟨stamp, 0, 0⟩
      steering := stamps.map fun stamp => ⟨stamp, 0⟩
      plan := stamps.map fun stamp => ⟨stamp, [⟨pose 0, 1, 0, 0, 0⟩, ⟨pose 1, 1, 0, 0, 1⟩]⟩ }

noncomputable def ofRolling (script : List (List (PlanPoint ℝ))) (withDriven : Bool) : Builder ℝ :=
  (create (.halves 2 Nat.two_pos) ⟨Extractor.standardWheelBase, .halves 2 Nat.two_pos⟩
    ofStanding.scorer (some (Sampler.scripted script))
    { LatticeSettings.standard with resolution := 1 } withDriven none).1

theorem ofRolling_fields (script : List (List (PlanPoint ℝ))) (withDriven : Bool) :
    (ofRolling script withDriven).sampler = some (Sampler.scripted script) ∧
    (ofRolling script withDriven).includeExecuted = withDriven ∧
    (ofRolling script withDriven).horizon = .halves 2 Nat.two_pos ∧
    (ofRolling script withDriven).extractor.horizon = .halves 2 Nat.two_pos := by
  obtain ⟨lattice, made⟩ := create_fst (.halves 2 Nat.two_pos)
    ⟨Extractor.standardWheelBase, .halves 2 Nat.two_pos⟩ ofStanding.scorer
    (some (Sampler.scripted script)) { LatticeSettings.standard with resolution := 1 } withDriven none
  rw [ofRolling, made]
  exact ⟨rfl, rfl, rfl, rfl⟩

theorem rollingDrive_loads : ∃ snapshot,
    Snapshot.load recordStamp 0 0 rollingDrive.entries = .ok snapshot ∧ snapshot.clock = 0 ∧
      snapshot.Whole ∧ snapshot.isReady = true ∧ snapshot.Reaches (snapshot.clock + 500000000) ∧
      ∃ seed, snapshot.seed = .ok seed ∧ (seed.plan.points.map fun point =>
        point.pose.planarPosition) = [⟨0, 0⟩, ⟨1, 0⟩] := by
  obtain ⟨snapshot, loaded, clock, ready, held⟩ : ∃ snapshot,
      Snapshot.load recordStamp 0 0 rollingDrive.entries = .ok snapshot ∧ snapshot.clock = 0 ∧
        snapshot.isReady = true ∧ ∀ stream, (snapshot.window stream).toList =
          rollingDrive.stamped recordStamp stream :=
    ⟨_, rfl, rfl, rfl, fun stream => by cases stream <;> rfl⟩
  obtain ⟨span, kept⟩ := (Snapshot.Reachable.load loaded).kept
  have current (stream : Stream) : snapshot.current stream =
      (rollingDrive.stamped recordStamp stream).find? fun record => decide (0 < record.stamp) := by
    rw [kept.current_eq, Snapshot.firstLater, held, clock]
  refine ⟨snapshot, loaded, clock, ?_, ready, ?_, _, (Snapshot.seed_eq_ok_iff ..).mpr
    ⟨_, _, _, (current .odometry).trans rfl, (current .acceleration).trans rfl,
      (current .plan).trans rfl, List.cons_ne_nil _ _, rfl⟩, rfl⟩
  · intro stream
    rw [held]
    cases stream with
    | odometry => exact List.forall_mem_cons.mpr ⟨rfl, List.forall_mem_singleton.mpr rfl⟩
    | objects => exact List.forall_mem_cons.mpr ⟨nofun, List.forall_mem_singleton.mpr nofun⟩
    | acceleration => exact List.forall_mem_cons.mpr ⟨rfl, List.forall_mem_singleton.mpr rfl⟩
    | _ => exact List.forall_mem_cons.mpr ⟨trivial, List.forall_mem_singleton.mpr trivial⟩
  · intro stream
    unfold Window.Reaches
    rw [held, clock]
    cases stream <;> exact ⟨_, List.mem_cons_of_mem _ List.mem_cons_self, by decide⟩

theorem within_halves : (Horizon.halves 2 Nat.two_pos).Within 500000000 := by
  obtain ⟨offset, placed, near⟩ := (Horizon.halves 2 Nat.two_pos).exists_stepsAt
  intro step late inside timed
  have told := Horizon.halves_offset (near step)
  have before : step < 2 := inside
  cases timed.symm.trans (placed.timed step inside)
  omega

theorem ofRolling_builds {snapshot : Snapshot ℝ}
    (loaded : Snapshot.load recordStamp 0 0 rollingDrive.entries = .ok snapshot)
    (script : List (List (PlanPoint ℝ))) (withDriven : Bool) :
    ∃ ranking, ((ofRolling script withDriven).build snapshot).outcome = .ok (.ready ranking) := by
  obtain ⟨_, loaded', clock, whole, ready, reaches, seed, seeded, ahead⟩ := rollingDrive_loads
  cases loaded.symm.trans loaded'
  obtain ⟨span, kept⟩ := (Snapshot.Reachable.load loaded).kept
  obtain ⟨scripted, -, horizon, horizon'⟩ := ofRolling_fields script withDriven
  cases built : ((ofRolling script withDriven).build snapshot).outcome with
  | ok outcome =>
      cases outcome with
      | ready ranking => exact ⟨ranking, rfl⟩
      | notReady cause =>
          have within := within_halves
          rw [← horizon] at within
          exact absurd built (kept.neverShort_build reaches (by decide) within cause)
  | error fault =>
      have fails := build_fails_iff (horizon'.trans horizon.symm) (willing_of_scripted scripted) whole
      rcases (fails fault).mp built with failed | ⟨material, gathered, -, -, blocked⟩
      · cases seeded.symm.trans failed
      · have own := ((gather_eq_ready_iff ..).mp gathered).1
        cases seeded.symm.trans own
        exact (passable_stride ahead fault blocked).elim

noncomputable def besides (sides : List (ℝ × ℝ)) : List (PlanPoint ℝ) :=
  sides.map fun (x, y) => ⟨⟨⟨x, y, 0⟩, .identity⟩, 1, 0, 0, 0⟩

noncomputable def detours : List (List (PlanPoint ℝ)) :=
  [besides [(0, 1), (1, 1), (1, 0)], besides [(0, -1)], besides [(0, -1), (1, -1)]]

theorem firstLater_rollingDrive {snapshot : Snapshot ℝ}
    (loaded : Snapshot.load recordStamp 0 0 rollingDrive.entries = .ok snapshot) :
    ∃ plan, snapshot.firstLater .plan = some plan ∧ plan.value.points.length = 2 := by
  cases loaded
  exact ⟨_, rfl, rfl⟩

theorem rollingDrive_lineup : ∃ builder snapshot ranking request members,
    ofRolling detours true = builder ∧
    Snapshot.load recordStamp 0 0 rollingDrive.entries = .ok snapshot ∧
    ¬ snapshot.LacksSeed ∧ ¬ snapshot.RunsShort builder.horizon builder.includeExecuted ∧
    (builder.build snapshot).outcome = .ok (.ready ranking) ∧
    (builder.build snapshot).requests = [request] ∧ request.lattice.resolution = 1 / 2 ∧
    (ranking.ranked.map ScoredCandidate.candidate).Perm members ∧
    builder.Lineup snapshot (builder.build snapshot).requests members ∧
    members.map Candidate.origin = [.executed, .current, .sampled, .sampled] ∧
    (members.drop 2).map Candidate.motion =
      [.planned (besides [(0, 1), (1, 1)]), .planned (besides [(0, -1), (1, -1)])] := by
  obtain ⟨snapshot, loaded, -⟩ := rollingDrive_loads
  obtain ⟨plan, planned, long⟩ := firstLater_rollingDrive loaded
  obtain ⟨ranking, found⟩ := ofRolling_builds loaded detours true
  obtain ⟨scripted, executed, horizon, -⟩ := ofRolling_fields detours true
  have undisturbed : (ofRolling detours true).Undisturbed snapshot := by
    constructor
    · rintro sampler own request -
      cases scripted.symm.trans own
      trivial
    · intro fault failed
      rw [found] at failed
      cases failed
  obtain ⟨-, fits, decided⟩ := build_of_create _ _ _ _ _ _ _ (rfl : _ = ofRolling detours true)
    (Snapshot.Reachable.load loaded)
  obtain ⟨gaps, waits, full⟩ := decided undisturbed
  have seeded : ¬ snapshot.LacksSeed := by
    intro lacking
    obtain ⟨gap, failed⟩ := gaps.mpr lacking
    rw [found] at failed
    cases failed
  have reaching : ¬ snapshot.RunsShort (ofRolling detours true).horizon
      (ofRolling detours true).includeExecuted := by
    intro short
    obtain ⟨cause, waiting⟩ := (waits seeded).mpr short
    rw [found] at waiting
    cases waiting
  obtain ⟨ranked, same, -, ⟨members, listed, lineup⟩, -⟩ := full seeded reaching
  obtain ⟨⟨request, asked⟩, driven, resampled, drove, told⟩ :=
    lineup.of_scripted scripted planned long.ge
  obtain ⟨motion, rfl⟩ := Option.isSome_iff_exists.mp (drove.trans executed)
  rw [horizon] at told
  have four : members.map (fun member => (member.origin, member.motion)) =
      [(.executed, .driven motion), (.current, .planned resampled),
        (.sampled, .planned (besides [(0, 1), (1, 1)])),
        (.sampled, .planned (besides [(0, -1), (1, -1)]))] := told
  refine ⟨_, snapshot, ranked, request, members, rfl, loaded, seeded, reaching, same, asked, ?_,
    listed, lineup, ?_, ?_⟩
  · rw [fits request (asked ▸ List.mem_singleton_self _), horizon]
    rfl
  · simpa [Function.comp_def] using congrArg (List.map Prod.fst) four
  · simpa [Function.comp_def] using congrArg (fun entries => (entries.drop 2).map Prod.snd) four

end Builder

end ManeuverRanking
