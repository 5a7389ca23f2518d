import ManeuverRanking.Analysis.Table
import ManeuverRanking.Replay

/-!
The analysis of a whole drive. Records are replayed ahead of the clock so that they reach past the
horizon, and the candidates are ranked at every tick until the clock passes the last odometry.
-/

namespace ManeuverRanking

structure RunSettings (α : Type) where
  /-- Seconds the windows must exceed. -/
  windowSpan : α
  /-- Seconds between ticks. -/
  timeStep : α
  steps : Int
  interval : α
  wheelBase : α
  scores : ScoreSettings α
  lattice : LatticeSettings α
  sampler : Option (Sampler α)
  includeExecuted : Bool
  workers : Option Int

structure RunTick (α : Type) where
  clock : Int
  outcome : Outcome Shortage (Analysis α)

structure Run (α : Type) where
  logName : String
  ticks : List (RunTick α)
  notices : List (Notice α)

structure RunState (α : Type) [Arithmetic α] where
  replay : Replay α
  analyzer : Analyzer α

namespace RunTick

variable {α : Type}

def isValid (tick : RunTick α) : Bool :=
  tick.outcome.isReady

variable [Scalar α]

def rows (tick : RunTick α) (logName : String) : List (Row α) :=
  let group := match tick.outcome with
    | .ready analysis => analysis.rows
    | .notReady _ => [skippedRow tick.clock]
  group.map fun row => row ++ [(.valid, .flag tick.isValid), (.logName, .text logName)]

end RunTick

namespace RunState

variable {α : Type} [Scalar α]

def clock (state : RunState α) : Int :=
  state.analyzer.snapshot.clock

structure Advance (α : Type) [Arithmetic α] where
  state : RunState α
  tick : RunTick α
  notices : List (Notice α)

def advance (state : RunState α) (lookahead : Int) : Except (Fault α) (Advance α) :=
  let fed := state.replay.feedUntil state.analyzer.snapshot (state.clock + lookahead)
  match fed.count with
  | .error fault => .error fault
  | .ok _ =>
      let tick := { state.analyzer with snapshot := fed.snapshot }.tick
      match tick.outcome with
      | .error fault => .error fault
      | .ok outcome =>
          let state : RunState α := ⟨fed.replay, tick.analyzer⟩
          .ok ⟨state, ⟨state.clock, outcome⟩, tick.notices⟩

theorem advance_clock {state : RunState α} {lookahead : Int} {next : Advance α}
    (advanced : state.advance lookahead = .ok next) :
    next.state.clock = state.clock + state.analyzer.step := by
  unfold advance at advanced
  simp only at advanced
  split at advanced
  · simp at advanced
  · split at advanced
    · simp at advanced
    · simp only [Except.ok.injEq] at advanced
      rw [← advanced]
      simp only [clock, Analyzer.tick_clock, Replay.feedUntil_clock]

def ticksUntil (lookahead endTime : Int) (state : RunState α) :
    Except (Fault α) (List (RunTick α × List (Notice α))) :=
  if state.clock ≤ endTime then
    match advanced : state.advance lookahead with
    | .error fault => .error fault
    | .ok next =>
        have : next.state.clock = state.clock + state.analyzer.step := advance_clock advanced
        match ticksUntil lookahead endTime next.state with
        | .error fault => .error fault
        | .ok later => .ok ((next.tick, next.notices) :: later)
  else .ok []
termination_by (endTime + 1 - state.clock).toNat
decreasing_by
  have positive := state.analyzer.step_pos
  omega

end RunState

namespace RunSettings

variable {α : Type} [Scalar α]

def standard : RunSettings α where
  windowSpan := 20.0
  timeStep := 0.1
  steps := 20
  interval := 0.5
  wheelBase := Extractor.standardWheelBase
  scores := .standard
  lattice := .standard
  sampler := none
  includeExecuted := true
  workers := none

def refusing {β : Type} (value : Except (Fault α) β) : Except (Fault α) β :=
  value.mapError .refusedSetting

def builder (settings : RunSettings α) : Except (Fault α) (Builder α × List (Notice α)) := do
  let horizon ← refusing (Horizon.of settings.steps settings.interval)
  let scorer ← refusing (Scorer.of settings.scores)
  return Builder.create horizon ⟨settings.wheelBase, horizon⟩ scorer settings.sampler
    settings.lattice settings.includeExecuted settings.workers

end RunSettings

namespace Run

variable {α : Type} [Scalar α]

def ofLog (settings : RunSettings α) (log : DriveLog α) : Except (Fault α) (Run α) := do
  let (builder, notices) ← settings.builder
  let span ← nanoseconds settings.windowSpan
  let step ← nanoseconds settings.timeStep
  let reach ← builder.horizon.stepOffset builder.horizon.steps
  let start ← log.startTime
  let snapshot ← Snapshot.create recordStamp start span
  let analyzer ← Analyzer.create snapshot builder step
  let endTime ← log.endTime
  -- Windows must reach a span back and a horizon ahead of the clock.
  let ticks ← RunState.ticksUntil (span + reach) endTime ⟨.ofLog log, analyzer⟩
  let skipped := (ticks.filter fun tick => !tick.1.isValid).length
  return {
    logName := log.name
    ticks := ticks.map Prod.fst
    notices := notices ++ ticks.flatMap Prod.snd
      ++ [.ticksProcessed ticks.length log.name skipped] }

def timeKind (run : Run α) : TimeKind :=
  .joinAll (run.ticks.map fun tick => .ofTime tick.clock)

def rows (run : Run α) : List (Row α) :=
  (run.ticks.flatMap fun tick => tick.rows run.logName).map (Row.holdTime run.timeKind)

def table (run : Run α) : Table α :=
  .ofRows run.rows

end Run

end ManeuverRanking
