import ManeuverRanking.Candidate.Builder

/-!
The tick driver. A tick advances the clock and ranks the candidates at the new time; the result of
the last successful tick is kept, and marked stale once a later one finds nothing to start from.
-/

namespace ManeuverRanking

structure Analysis (α : Type) where
  clock : Int
  ranking : Ranking α
  stale : Bool

structure Analyzer (α : Type) [Arithmetic α] where
  snapshot : Snapshot α
  builder : Builder α
  /-- Nanoseconds the clock advances with each tick. -/
  step : Int
  latest : Option (Analysis α)
  step_pos : 0 < step

structure Tick (α : Type) [Arithmetic α] where
  analyzer : Analyzer α
  outcome : Except (Fault α) (Outcome Shortage (Analysis α))
  notices : List (Notice α)

namespace Analyzer

variable {α : Type} [Scalar α]

def create (snapshot : Snapshot α) (builder : Builder α) (step : Int) :
    Except (Fault α) (Analyzer α) :=
  if stepPos : 0 < step then .ok ⟨snapshot, builder, step, none, stepPos⟩ else .error .timeStep

def update (analyzer : Analyzer α) (step : Option Int) : Analyzer α :=
  { analyzer with snapshot := analyzer.snapshot.advance (step.getD analyzer.step) }

def markStale (analyzer : Analyzer α) : Analyzer α :=
  { analyzer with latest := analyzer.latest.map fun analysis => { analysis with stale := true } }

/-- Ranks the candidates at the current time. A fault other than a gap in the seed is passed on. -/
def process (analyzer : Analyzer α) : Tick α :=
  let clock := analyzer.snapshot.clock
  if analyzer.snapshot.isReady then
    match (analyzer.builder.build analyzer.snapshot).outcome with
    | .ok (.ready ranking) =>
        let analysis : Analysis α := ⟨clock, ranking, false⟩
        ⟨{ analyzer with latest := some analysis }, .ok (.ready analysis), []⟩
    | .ok (.notReady cause) => ⟨analyzer, .ok (.notReady cause), []⟩
    -- Only a gap in the seed marks the latest result.
    | .error (.noSeed gap) =>
        ⟨analyzer.markStale, .ok (.notReady (.seed gap)), [.tickSkipped clock gap]⟩
    | .error fault => ⟨analyzer, .error fault, []⟩
  else ⟨analyzer, .ok (.notReady (.window clock)), []⟩

def tick (analyzer : Analyzer α) : Tick α :=
  (analyzer.update none).process

theorem process_snapshot (analyzer : Analyzer α) :
    analyzer.process.analyzer.snapshot = analyzer.snapshot := by
  unfold process
  split
  · split <;> rfl
  · rfl

theorem process_step (analyzer : Analyzer α) :
    analyzer.process.analyzer.step = analyzer.step := by
  unfold process
  split
  · split <;> rfl
  · rfl

theorem tick_clock (analyzer : Analyzer α) :
    analyzer.tick.analyzer.snapshot.clock = analyzer.snapshot.clock + analyzer.step := by
  rw [tick, process_snapshot]
  rfl

theorem tick_step (analyzer : Analyzer α) : analyzer.tick.analyzer.step = analyzer.step := by
  rw [tick, process_step]
  rfl

end Analyzer

end ManeuverRanking
