import ManeuverRanking.Proofs.Analysis.Course
import ManeuverRanking.Proofs.Delay.Replay
import ManeuverRanking.Proofs.Delay.Scoring

/-!
Runs of a drive recorded some time later. Tick by tick the same is ranked, or the same is missing,
and the run fails where the other one fails and for the same cause.
-/

namespace ManeuverRanking

variable {α : Type}

def Fault.gap? : Fault α → Option SeedGap
  | noSeed gap => some gap
  | _ => none

theorem Fault.gap?_timeless (fault : Fault α) :
    fault.timeless.gap? = fault.gap?.map SeedGap.timeless := by
  cases fault <;> rfl

def Analysis.delay (time : Int) (analysis : Analysis α) : Analysis α :=
  ⟨analysis.clock + time, analysis.ranking.delay time, analysis.stale⟩

def Row.delay (time : Int) (row : Row α) : Row α :=
  row.mapTime (· + time)

variable [Scalar α]

theorem Analysis.rows_delay (time : Int) (analysis : Analysis α) :
    (analysis.delay time).rows = analysis.rows.map (Row.delay time) := by
  have ranked : (analysis.delay time).ranking.ranked =
      analysis.ranking.ranked.map (ScoredCandidate.delay time) := rfl
  simp only [Analysis.rows, ranked, List.zipIdx_map, List.map_map]
  rfl

structure RunTick.Delayed (time : Int) (tick tick' : RunTick α) : Prop where
  clock : tick'.clock = tick.clock + time
  outcome : tick.outcome.Alike (fun analysis analysis' => analysis' = analysis.delay time)
    tick'.outcome

theorem RunTick.Delayed.rows {time : Int} {tick tick' : RunTick α}
    (delayed : RunTick.Delayed time tick tick') (logName : String) :
    tick'.rows logName = (tick.rows logName).map (Row.delay time) := by
  rcases delayed.outcome.cases_on with
    ⟨cause, cause', missing, missing', -⟩ | ⟨analysis, _, ranked, ranked', rfl⟩
  · simp only [RunTick.rows, RunTick.isValid, missing, missing', delayed.clock]
    rfl
  · simp only [RunTick.rows, RunTick.isValid, ranked, ranked', Analysis.rows_delay, List.map_map]
    apply List.map_congr_left
    intro row _
    simp only [Function.comp_apply, Row.delay, Row.mapTime, List.map_append]
    rfl

namespace Analyzer

theorem process_of_error {analyzer : Analyzer α} {fault : Fault α}
    (ready : analyzer.snapshot.isReady = true)
    (failed : (analyzer.builder.build analyzer.snapshot).outcome = .error fault) :
    analyzer.process.outcome = match fault.gap? with
      | some gap => .ok (.notReady (.seed gap))
      | none => .error fault := by
  unfold process
  rw [if_pos ready, failed]
  cases fault <;> rfl

theorem process_delay {time : Int} {analyzer analyzer' : Analyzer α}
    (timed : analyzer.snapshot.Timed (Payload.Fits time))
    (snapshot : analyzer'.snapshot = analyzer.snapshot.delay time)
    (builder : analyzer'.builder = analyzer.builder) :
    Alike (Outcome.Alike fun analysis analysis' => analysis' = analysis.delay time)
      analyzer.process.outcome analyzer'.process.outcome := by
  have sameReady : analyzer'.snapshot.isReady = analyzer.snapshot.isReady := by
    rw [snapshot, Snapshot.isReady_delay]
  have builds := analyzer.builder.build_delay timed
  rw [← snapshot, ← builder] at builds
  cases ready : analyzer.snapshot.isReady with
  | false =>
      rw [ready] at sameReady
      simp only [process, ready, sameReady]
      rfl
  | true =>
      rw [ready] at sameReady
      rcases builds.cases_on with
        ⟨fault, fault', failed, failed', same⟩ | ⟨_, _, built, built', alike⟩
      · rw [builder] at failed
        rw [process_of_error ready failed, process_of_error sameReady failed']
        -- Of two faults that differ in times alone both are gaps in the seed, or neither is.
        have gaps := congrArg Fault.gap? same
        rw [Fault.gap?_timeless, Fault.gap?_timeless] at gaps
        cases gap : fault.gap? <;> cases gap' : fault'.gap? <;>
          simp only [gap, gap', Option.map_none, Option.map_some, reduceCtorEq,
            Option.some.injEq] at gaps
        · exact same
        · exact congrArg Shortage.seed gaps
      · rw [builder] at built
        rcases alike.cases_on with
          ⟨_, _, rfl, rfl, same⟩ | ⟨ranking, _, rfl, rfl, rfl⟩
        · simp only [process, ready, sameReady, built, built', if_true]
          exact same
        · have clock : analyzer'.snapshot.clock = analyzer.snapshot.clock + time := by
            rw [snapshot]
            rfl
          simp only [process, ready, sameReady, built, built', if_true, clock]
          rfl

theorem create_delay (snapshot : Snapshot α) (builder : Builder α) (step time : Int) :
    Alike (fun analyzer analyzer' => analyzer.snapshot = snapshot ∧
        analyzer'.snapshot = snapshot.delay time ∧ analyzer'.builder = analyzer.builder ∧
        analyzer'.step = analyzer.step)
      (create snapshot builder step) (create (snapshot.delay time) builder step) := by
  unfold create
  split
  · exact ⟨rfl, rfl, rfl, rfl⟩
  · rfl

end Analyzer

namespace RunState

structure Delayed (time : Int) (state state' : RunState α) : Prop where
  good : state.replay.log.Good (Payload.Fits time)
  timed : state.analyzer.snapshot.Timed (Payload.Fits time)
  replay : state'.replay = state.replay.delay time
  snapshot : state'.analyzer.snapshot = state.analyzer.snapshot.delay time
  builder : state'.analyzer.builder = state.analyzer.builder
  step : state'.analyzer.step = state.analyzer.step

variable {time : Int} {state state' : RunState α}

theorem Delayed.clock (delayed : Delayed time state state') :
    state'.clock = state.clock + time := by
  rw [RunState.clock, delayed.snapshot]
  rfl

theorem Delayed.advance (delayed : Delayed time state state') (lookahead : Int) :
    Alike (fun next next' =>
        Delayed time next.state next'.state ∧ RunTick.Delayed time next.tick next'.tick)
      (state.advance lookahead) (state'.advance lookahead) := by
  obtain ⟨timed, sameLog, replays, snapshots, counts⟩ := Replay.feedUntil_delay delayed.timed
    delayed.good time (state.clock + lookahead)
  have until' : state'.clock + lookahead = state.clock + lookahead + time := by
    rw [delayed.clock]
    omega
  rw [← delayed.replay, ← delayed.snapshot, ← until'] at replays snapshots counts
  have arrived : (state'.arrive lookahead).snapshot =
      (state.arrive lookahead).snapshot.delay time := by
    simp only [arrive, Analyzer.withSnapshot, Analyzer.update, snapshots, delayed.step, Option.getD_none]
    exact Snapshot.advance_delay ..
  rw [advance_eq, advance_eq]
  apply counts.bind
  rintro _ _ -
  apply (Analyzer.process_delay (timed.advance _) arrived delayed.builder).bind
  intro outcome outcome' alike
  refine ⟨⟨?_, ?_, replays, ?_, ?_, ?_⟩, ⟨?_, alike⟩⟩
  · simp only
    rw [sameLog]
    exact delayed.good
  · simp only
    rw [Analyzer.process_snapshot]
    exact timed.advance _
  · simp only
    rw [Analyzer.process_snapshot, Analyzer.process_snapshot]
    exact arrived
  · simp only
    rw [Analyzer.process_builder, Analyzer.process_builder]
    exact delayed.builder
  · simp only
    rw [Analyzer.process_step, Analyzer.process_step]
    exact delayed.step
  · simp only [arrived]
    rfl

def TicksDelayed (time : Int) (ticks ticks' : List (RunTick α × List (Notice α))) : Prop :=
  ticks'.map (fun tick => tick.1.clock) = ticks.map (fun tick => tick.1.clock + time) ∧
    ∀ logName, ticks'.flatMap (fun tick => tick.1.rows logName) =
      (ticks.flatMap fun tick => tick.1.rows logName).map (Row.delay time)

theorem Delayed.ticksUntil (delayed : Delayed time state state') (lookahead endTime : Int) :
    Alike (TicksDelayed time) (ticksUntil lookahead endTime state)
      (ticksUntil lookahead (endTime + time) state') := by
  generalize rounds : (endTime + 1 - state.clock).toNat = bound
  induction bound using Nat.strongRecOn generalizing state state' with
  | ind bound ih =>
      have within : state'.clock ≤ endTime + time ↔ state.clock ≤ endTime := by
        rw [delayed.clock]
        omega
      rw [ticksUntil_eq, ticksUntil_eq]
      by_cases due : state.clock ≤ endTime
      · rw [if_pos due, if_pos (within.mpr due)]
        apply ((delayed.advance lookahead).of_left fun next advanced =>
          advance_clock advanced).bind
        rintro next next' ⟨moved, still, tick⟩
        have forward := state.analyzer.step_pos
        apply (ih (endTime + 1 - next.state.clock).toNat (by omega) still rfl).bind
        rintro later later' ⟨clocks, rows⟩
        constructor
        · simp only [List.map_cons, clocks, tick.clock]
        · intro logName
          simp only [List.flatMap_cons, List.map_append, rows, tick.rows]
      · rw [if_neg due, if_neg (fun due' => due (within.mp due'))]
        exact ⟨rfl, fun _ => rfl⟩

end RunState

namespace Run

def exactRows (run : Run α) : List (Row α) :=
  run.ticks.flatMap fun tick => tick.rows run.logName

structure Delayed (time : Int) (run run' : Run α) : Prop where
  clocks : run'.clocks = run.clocks.map (· + time)
  rows : run'.exactRows = run.exactRows.map (Row.delay time)

theorem ofLog_alike (settings : RunSettings α) {log : DriveLog α} {time : Int}
    (fits : log.Good (Payload.Fits time)) :
    Alike (Delayed time) (ofLog settings log) (ofLog settings (log.delay time)) := by
  unfold ofLog
  -- The settings know no times; from the start of the log on both sides are a time apart.
  apply (Alike.refl settings.builder).bind
  rintro ⟨builder, notices⟩ _ rfl
  apply (Alike.refl (nanoseconds settings.windowSpan)).bind
  rintro span _ rfl
  apply (Alike.refl (nanoseconds settings.timeStep)).bind
  rintro step _ rfl
  apply (Alike.refl (builder.horizon.stepOffset builder.horizon.steps)).bind
  rintro reach _ rfl
  apply (log.startTime_delay time).bind
  rintro start _ rfl
  apply (Snapshot.create_delay (Payload.Fits time) time start span).bind
  rintro snapshot _ ⟨timed, rfl⟩
  apply (Analyzer.create_delay snapshot builder step time).bind
  rintro analyzer analyzer' ⟨here, here', sameBuilder, sameStep⟩
  have started : RunState.Delayed time ⟨.ofLog log, analyzer⟩ ⟨.ofLog (log.delay time), analyzer'⟩ :=
    ⟨fits, here ▸ timed, rfl, by rw [here', here], sameBuilder, sameStep⟩
  apply (log.endTime_delay time).bind
  rintro endTime _ rfl
  apply (started.ticksUntil (span + reach) endTime).bind
  rintro ticks ticks' ⟨clocks, rows⟩
  constructor
  · simp only [Run.clocks, List.map_map]
    exact clocks
  · simp only [exactRows, List.flatMap_map]
    exact rows log.name

end Run

end ManeuverRanking
