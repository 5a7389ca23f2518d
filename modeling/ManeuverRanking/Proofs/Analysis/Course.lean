import ManeuverRanking.Proofs.Analysis.Rows
import ManeuverRanking.Proofs.Candidate.View
import ManeuverRanking.Proofs.Loading

/-!
The course of a run: at every tick the snapshot is a view of the whole drive at that time, so what
is ranked there is what a build on the whole drive ranks.
-/

namespace ManeuverRanking

namespace Replay.Playing

variable {α : Type} {keys : StampKeys α} {log : DriveLog α} {span : Nat}
  {reached : Stream → Int → Bool} {replay : Replay α} {snapshot full : Snapshot α}

theorem find?_of_queryAfter (playing : Playing keys log span reached replay snapshot)
    {stream : Stream} {time : Int} (late : snapshot.clock ≤ time)
    {record : Stamped (Payload α stream)}
    (found : (snapshot.window stream).queryAfter time = some record) :
    (log.stamped keys stream).find? (fun record => decide (time < record.stamp)) = some record := by
  have holds := playing.holds stream
  obtain ⟨evicted, split, older⟩ := holds.kept
  rw [holds.inOrder.queryAfter_eq_find?] at found
  have before : evicted.find? (fun record => decide (time < record.stamp)) = none := by
    apply List.find?_eq_none.mpr
    intro old member
    have bound := older old member
    simp only [decide_eq_true_eq, Int.not_lt]
    omega
  rw [← List.take_append_drop (replay.cursors.get stream) (log.stamped keys stream), split,
    List.append_assoc, List.find?_append, before, List.find?_append, found]
  rfl

theorem viewOf (playing : Playing keys log span reached replay snapshot)
    (sameClock : full.clock = snapshot.clock)
    (loaded : ∀ stream, (full.window stream).InOrder ∧
      (full.window stream).toList = log.stamped keys stream) : snapshot.ViewOf full := by
  constructor
  · exact sameClock.symm
  · intro stream time late record found
    rw [(loaded stream).1.queryAfter_eq_find?, (loaded stream).2]
    exact playing.find?_of_queryAfter late found

end Replay.Playing

namespace Analyzer

variable {α : Type}

def withSnapshot [Arithmetic α] (analyzer : Analyzer α) (snapshot : Snapshot α) : Analyzer α :=
  { analyzer with snapshot := snapshot }

variable [Scalar α]

theorem process_builder (analyzer : Analyzer α) :
    analyzer.process.analyzer.builder = analyzer.builder := by
  unfold process
  split
  · split <;> rfl
  · rfl

theorem process_eq_ready {analyzer : Analyzer α} {analysis : Analysis α}
    (ready : analyzer.process.outcome = .ok (.ready analysis)) :
    ∃ ranking, (analyzer.builder.build analyzer.snapshot).outcome = .ok (.ready ranking) ∧
      analysis = ⟨analyzer.snapshot.clock, ranking, false⟩ := by
  unfold process at ready
  split at ready
  · split at ready
    · rename_i ranking built
      simp only [Except.ok.injEq, Outcome.ready.injEq] at ready
      exact ⟨ranking, built, ready.symm⟩
    all_goals simp at ready
  · simp at ready

end Analyzer

namespace RunState

variable {α : Type} [Scalar α]

def arrive (state : RunState α) (lookahead : Int) : Analyzer α :=
  let fed := state.replay.feedUntil state.analyzer.snapshot (state.clock + lookahead)
  (state.analyzer.withSnapshot fed.snapshot).update none

theorem advance_eq (state : RunState α) (lookahead : Int) :
    state.advance lookahead = do
      let fed := state.replay.feedUntil state.analyzer.snapshot (state.clock + lookahead)
      let _ ← fed.count
      let tick := (state.arrive lookahead).process
      let outcome ← tick.outcome
      return ⟨⟨fed.replay, tick.analyzer⟩, ⟨(state.arrive lookahead).snapshot.clock, outcome⟩,
        tick.notices⟩ := by
  rw [← Analyzer.process_snapshot (state.arrive lookahead)]
  simp only [advance, arrive, Analyzer.withSnapshot, Analyzer.tick, clock]
  cases (state.replay.feedUntil state.analyzer.snapshot (state.analyzer.snapshot.clock
    + lookahead)).count with
  | error fault => rfl
  | ok count =>
      simp only [bind, Except.bind]
      split
      · rename_i failed
        rw [failed]
      · rename_i done
        rw [done]
        rfl

structure Course (log : DriveLog α) (builder : Builder α) (state : RunState α) : Prop where
  sameBuilder : state.analyzer.builder = builder
  playing : ∃ span reached, Replay.Playing recordStamp log span reached state.replay
    state.analyzer.snapshot

/-- What is known of a tick: a ranking is that of a build on the whole drive at that time. -/
def Offline (log : DriveLog α) (builder : Builder α) (tick : RunTick α) : Prop :=
  ∀ analysis, tick.outcome = .ready analysis → ∃ ranking, analysis = ⟨tick.clock, ranking, false⟩ ∧
    ∀ entries, log.Arranged entries → ∀ span ≥ 0, ∃ full,
      Snapshot.load recordStamp tick.clock span entries = .ok full ∧
        (builder.build full).outcome = .ok (.ready ranking)

variable {log : DriveLog α} {builder : Builder α} {state : RunState α}

theorem Course.advance (course : Course log builder state) (ordered : log.Ordered recordStamp)
    (forward : builder.horizon.Forward) {lookahead : Int} {next : Advance α}
    (advanced : state.advance lookahead = .ok next) :
    Course log builder next.state ∧ Offline log builder next.tick := by
  obtain ⟨span, reached, playing⟩ := course.playing
  let later := fun stream stamp =>
    reached stream stamp || decide (stamp ≤ state.clock + lookahead)
  obtain ⟨count, counted, -, fed⟩ := playing.feedUntil ordered (state.clock + lookahead)
  have stepped := fed.advance state.analyzer.step (Int.le_of_lt state.analyzer.step_pos)
  simp only [advance_eq, bind_eq_ok_iff, pure, Except.pure, Except.ok.injEq] at advanced
  obtain ⟨_, -, outcome, processed, rfl⟩ := advanced
  constructor
  · constructor
    · rw [Analyzer.process_builder]
      exact course.sameBuilder
    · refine ⟨span, later, ?_⟩
      rw [Analyzer.process_snapshot]
      exact stepped
  · intro analysis ready
    simp only at ready
    subst ready
    obtain ⟨ranking, built, same⟩ := Analyzer.process_eq_ready processed
    refine ⟨ranking, same, ?_⟩
    intro entries arranged width positive
    obtain ⟨full, loaded, sameClock, windows⟩ :=
      ordered.load_eq_ok arranged (state.arrive lookahead).snapshot.clock positive
    refine ⟨full, loaded, ?_⟩
    -- The windows hold every record the build looks for, so the whole drive shows it the same.
    have view := Replay.Playing.viewOf stepped sameClock windows
    have sameBuilder : (state.arrive lookahead).builder = builder := course.sameBuilder
    rw [sameBuilder] at built
    rw [view.build forward built]
    exact built

theorem ticksUntil_eq (lookahead endTime : Int) (state : RunState α) :
    ticksUntil lookahead endTime state =
      if state.clock ≤ endTime then do
        let next ← state.advance lookahead
        let later ← ticksUntil lookahead endTime next.state
        return (next.tick, next.notices) :: later
      else .ok [] := by
  conv => lhs; rw [ticksUntil]
  split
  · split
    · rename_i advanced
      simp only [advanced]
      rfl
    · rename_i next advanced
      simp only [advanced, bind, Except.bind]
      cases ticksUntil lookahead endTime next.state <;> rfl
  · rfl

/-- What each step from a state with an invariant tells is what every tick of its run tells. -/
theorem ticksUntil_forall {invariant : RunState α → Prop} {tells : RunTick α → Prop}
    {lookahead endTime : Int}
    (kept : ∀ state, invariant state → ∀ next, state.advance lookahead = .ok next →
      invariant next.state ∧ tells next.tick)
    {ticks : List (RunTick α × List (Notice α))} (holds : invariant state)
    (ran : ticksUntil lookahead endTime state = .ok ticks) : ∀ tick ∈ ticks, tells tick.1 := by
  induction ticks generalizing state with
  | nil =>
      intro tick member
      cases member
  | cons first rest ih =>
      rw [ticksUntil_eq] at ran
      split at ran
      · simp only [bind_eq_ok_iff, pure, Except.pure, Except.ok.injEq, List.cons.injEq] at ran
        obtain ⟨next, advanced, later, done, rfl, rfl⟩ := ran
        obtain ⟨still, told⟩ := kept state holds next advanced
        intro tick member
        rcases List.mem_cons.mp member with rfl | after
        · exact told
        · exact ih still done tick after
      · cases ran

theorem advance_timely {lookahead : Int} {next : Advance α}
    (advanced : state.advance lookahead = .ok next) : next.tick.Timely := by
  intro analysis ready
  simp only [advance_eq, bind_eq_ok_iff, pure, Except.pure, Except.ok.injEq] at advanced
  obtain ⟨_, -, outcome, processed, rfl⟩ := advanced
  simp only at ready
  subst ready
  obtain ⟨ranking, -, rfl⟩ := Analyzer.process_eq_ready processed
  rfl

end RunState

theorem Run.ofLog_eq_ok {α : Type} [Scalar α] {settings : RunSettings α} {log : DriveLog α}
    {run : Run α} (ran : Run.ofLog settings log = .ok run) :
    ∃ builder notices, settings.builder = .ok (builder, notices) ∧ run.logName = log.name ∧
      ∃ clock span step lookahead endTime snapshot analyzer ticks,
        Snapshot.create recordStamp clock span = .ok snapshot ∧
        Analyzer.create snapshot builder step = .ok analyzer ∧
        RunState.ticksUntil lookahead endTime ⟨.ofLog log, analyzer⟩ = .ok ticks ∧
        run.ticks = ticks.map Prod.fst := by
  simp only [Run.ofLog, bind_eq_ok_iff, pure, Except.pure, Except.ok.injEq] at ran
  obtain ⟨⟨builder, notices⟩, built, span, -, step, -, reach, -, clock, -, snapshot, created,
    analyzer, started, endTime, -, ticks, done, rfl⟩ := ran
  exact ⟨builder, notices, built, rfl, clock, span, step, span + reach, endTime, snapshot, analyzer,
    ticks, created, started, done, rfl⟩

theorem Run.timely_of_ofLog {α : Type} [Scalar α] {settings : RunSettings α} {log : DriveLog α}
    {run : Run α} (ran : Run.ofLog settings log = .ok run) : ∀ tick ∈ run.ticks, tick.Timely := by
  obtain ⟨-, -, -, -, clock, span, step, lookahead, endTime, snapshot, analyzer, ticks, -, -, done,
    listed⟩ := Run.ofLog_eq_ok ran
  intro tick member
  rw [listed] at member
  obtain ⟨pair, inside, rfl⟩ := List.mem_map.mp member
  have any := @RunState.ticksUntil_forall α _ ⟨.ofLog log, analyzer⟩ (fun _ => True) RunTick.Timely
  exact any (fun _ _ _ advanced => ⟨trivial, RunState.advance_timely advanced⟩) trivial done pair
    inside

theorem Analyzer.create_eq_ok {α : Type} [Scalar α] {snapshot : Snapshot α} {builder : Builder α}
    {step : Int} {analyzer : Analyzer α} (created : create snapshot builder step = .ok analyzer) :
    analyzer.snapshot = snapshot ∧ analyzer.builder = builder ∧ analyzer.step = step := by
  unfold create at created
  split at created
  · simp only [Except.ok.injEq] at created
    subst created
    exact ⟨rfl, rfl, rfl⟩
  · cases created

/-- Every tick of a run of a drive in order ranks what a build on the whole drive ranks. -/
theorem Run.offline_of_ofLog {α : Type} [Scalar α] {settings : RunSettings α} {log : DriveLog α}
    (ordered : log.Ordered recordStamp) {builder : Builder α} {notices : List (Notice α)}
    (built : settings.builder = .ok (builder, notices)) (forward : builder.horizon.Forward)
    {run : Run α} (ran : Run.ofLog settings log = .ok run) :
    ∀ tick ∈ run.ticks, RunState.Offline log builder tick := by
  obtain ⟨same, others, found, -, clock, span, step, lookahead, endTime, snapshot, analyzer, ticks,
    created, started, done, listed⟩ := Run.ofLog_eq_ok ran
  rw [built, Except.ok.injEq, Prod.mk.injEq] at found
  obtain ⟨rfl, -⟩ := found
  obtain ⟨-, rfl⟩ := (Snapshot.create_eq_ok_iff ..).mp created
  obtain ⟨here, sameBuilder, -⟩ := Analyzer.create_eq_ok started
  have course : RunState.Course log builder ⟨.ofLog log, analyzer⟩ := by
    refine ⟨sameBuilder, span.toNat, fun _ _ => false, ?_⟩
    simp only [here]
    exact Replay.Playing.start ..
  intro tick member
  rw [listed] at member
  obtain ⟨pair, inside, rfl⟩ := List.mem_map.mp member
  exact RunState.ticksUntil_forall
    (fun state course next advanced => course.advance ordered forward advanced)
    course done pair inside

namespace Run

def verdicts {α : Type} (run : Run α) : List (Int × Bool) :=
  run.ticks.map fun tick => (tick.clock, tick.isValid)

theorem map_fst_verdicts {α : Type} (run : Run α) : run.verdicts.map Prod.fst = run.clocks := by
  rw [verdicts, List.map_map]
  rfl

theorem mem_verdicts_iff {α : Type} {run : Run α} {clock : Int} {valid : Bool} :
    (clock, valid) ∈ run.verdicts ↔
      ∃ tick ∈ run.ticks, tick.clock = clock ∧ tick.isValid = valid := by
  simp [verdicts]

def restPose : Pose Float :=
  ⟨⟨0.0, 0.0, 0.0⟩, ⟨1.0, 0.0, 0.0, 0.0⟩⟩

/-- The first unsigned time that is no signed one. -/
def edge : Int := 9223372036854775808

def restDrive (last : Int) : DriveLog Float where
  name := "rest"
  records :=
    let stamps := [last - 100000000, last]
    { transforms := stamps.map fun stamp => ⟨[⟨stamp, "map", "base_link", restPose⟩]⟩
      odometry := ((last - 400000000) :: stamps).map fun stamp => ⟨stamp, restPose, []⟩
      objects := stamps.map fun stamp => ⟨stamp, []⟩
      acceleration := stamps.map fun stamp => ⟨stamp, 0.0, 0.0⟩
      steering := stamps.map fun stamp => ⟨stamp, 0.0⟩
      plan := stamps.map fun stamp => ⟨stamp, [⟨restPose, 0.0, 0.0, 0.0, 0.0⟩]⟩ }

def restSettings : RunSettings Float :=
  { RunSettings.standard with
    windowSpan := 0.0, timeStep := 0.25, steps := 1, includeExecuted := false }

def evenDrive (start : Int) (count : Nat) : DriveLog Float where
  name := "even"
  records :=
    let stamps := (List.range count).map fun index : Nat => start + index * 100000000
    { transforms := stamps.map fun stamp => ⟨[⟨stamp, "map", "base_link", restPose⟩]⟩
      odometry := stamps.map fun stamp => ⟨stamp, restPose, [0.0, 0.0, 0.0]⟩
      objects := stamps.map fun stamp => ⟨stamp, []⟩
      acceleration := stamps.map fun stamp => ⟨stamp, 0.0, 0.0⟩
      steering := stamps.map fun stamp => ⟨stamp, 0.0⟩
      plan := stamps.map fun stamp => ⟨stamp, [⟨restPose, 0.0, 0.0, 0.0, 0.0⟩]⟩ }

def evenSettings : RunSettings Float :=
  { RunSettings.standard with windowSpan := 0.1, timeStep := 0.1, steps := 2, interval := 0.25 }

theorem stamps_evenDrive (start : Int) (count : Nat) (stream : Stream) :
    ((evenDrive start count).stamped recordStamp stream).map Stamped.stamp =
      (List.range count).map fun index : Nat => start + index * 100000000 := by
  cases stream <;>
    simp [DriveLog.stamped, stampAll, evenDrive, PerStream.get, recordStamp, TransformBatch.stamp,
      List.filterMap_map, List.filterMap_eq_map', Function.comp_def]

theorem evenDrive_ordered (start : Int) (count : Nat) : (evenDrive start count).Ordered recordStamp := by
  constructor
  · intro stream value member
    cases stream <;> simp [evenDrive, PerStream.get] at member
    all_goals
      obtain ⟨_, _, rfl⟩ := member
      exact ⟨_, rfl⟩
  · intro stream
    have sorted : (((evenDrive start count).stamped recordStamp stream).map Stamped.stamp).Pairwise
        (· ≤ ·) := by
      rw [stamps_evenDrive, List.pairwise_map]
      apply List.pairwise_lt_range.imp
      intro first second before
      omega
    exact List.pairwise_map.mp sorted

end Run

end ManeuverRanking
