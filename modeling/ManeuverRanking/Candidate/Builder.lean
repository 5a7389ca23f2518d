import ManeuverRanking.Candidate.Ranking
import ManeuverRanking.Metric.Extract
import ManeuverRanking.Notice
import ManeuverRanking.Plan.Resample
import ManeuverRanking.Sampler
import ManeuverRanking.Snapshot

/-!
The candidates of a snapshot: the motion that was driven, the current plan, and what a sampler
proposes along it. All are measured, scored and ranked; the snapshot is only read.
-/

namespace ManeuverRanking

structure Builder (α : Type) [Arithmetic α] where
  horizon : Horizon α
  extractor : Extractor α
  scorer : Scorer α
  sampler : Option (Sampler α)
  lattice : LatticeSettings α
  includeExecuted : Bool
  workers : Option Int

structure Seed (α : Type) where
  odometry : Odometry α
  acceleration : AccelerationReport α
  plan : Plan α

structure Material (α : Type) where
  seed : Seed α
  objects : List (TrackedObjects α)
  driven : Option (DrivenMotion α)

structure BuildReport (α : Type) where
  outcome : Except (Fault α) (Outcome Shortage (Ranking α))
  requests : List (SamplerRequest α)

def whenReady {ε reason β γ : Type} (outcome : Outcome reason β)
    (next : β → Except ε (Outcome reason γ)) : Except ε (Outcome reason γ) :=
  match outcome with
  | .ready value => next value
  | .notReady cause => .ok (.notReady cause)

namespace Snapshot

variable {α : Type}

def seedStreams : List Stream :=
  [.odometry, .acceleration, .plan]

def seed (snapshot : Snapshot α) : Except (Fault α) (Seed α) :=
  match snapshot.current .odometry, snapshot.current .acceleration, snapshot.current .plan with
  | some odometry, some acceleration, some plan =>
      if plan.value.points.isEmpty then .error (.noSeed (.emptyPlan plan.value.stamp))
      else .ok ⟨odometry.value, acceleration.value, plan.value⟩
  | _, _, _ =>
      .error (.noSeed (.missing
        (seedStreams.filter fun stream => (snapshot.current stream).isNone) snapshot.clock))

variable [Scalar α]

def driven (snapshot : Snapshot α) (horizon : Horizon α) :
    Except (Fault α) (Outcome Shortage (DrivenMotion α)) := do
  whenReady (← snapshot.collect .odometry horizon) fun odometry => do
  whenReady (← snapshot.collect .acceleration horizon) fun acceleration => do
  whenReady (← snapshot.collect .steering horizon) fun steering =>
    return .ready ⟨odometry, acceleration, steering⟩

end Snapshot

namespace Builder

variable {α : Type} [Scalar α]

/-- A builder whose sampled points fit the steps of its horizon: another resolution of the lattice
is replaced, with a notice. -/
def create (horizon : Horizon α) (extractor : Extractor α) (scorer : Scorer α)
    (sampler : Option (Sampler α)) (lattice : LatticeSettings α) (includeExecuted : Bool)
    (workers : Option Int) : Builder α × List (Notice α) :=
  let builder : Builder α :=
    { horizon, extractor, scorer, sampler, lattice, includeExecuted, workers }
  if sameAs lattice.resolution horizon.interval then (builder, [])
  else
    ({ builder with lattice := { lattice with resolution := horizon.interval } },
      [.resolutionReplaced lattice.resolution horizon.interval])

def gather (builder : Builder α) (snapshot : Snapshot α) :
    Except (Fault α) (Outcome Shortage (Material α)) := do
  let seed ← snapshot.seed
  whenReady (← snapshot.collect .objects builder.horizon) fun objects => do
    if builder.includeExecuted then
      whenReady (← snapshot.driven builder.horizon) fun driven =>
        return .ready ⟨seed, objects, some driven⟩
    else return .ready ⟨seed, objects, none⟩

def requestFor (builder : Builder α) (seed : Seed α) : Except (Fault α) (SamplerRequest α) := do
  let points := seed.plan.points
  let path ← ReferencePath.throughPlan points ReferencePath.defaultSpacing
  let state ← FrenetState.ofEgo path seed.odometry seed.acceleration
  let planLength := (planProgress points).getLast?.getD 0
  return ⟨path, state, Lattice.build builder.lattice path state.position.along planLength⟩

def request? (builder : Builder α) (seed : Seed α) :
    Except (Fault α) (Option (Sampler α × SamplerRequest α)) :=
  match builder.sampler with
  | none => .ok none
  | some sampler =>
      if seed.plan.points.length < 2 then .ok none
      else do return some (sampler, ← builder.requestFor seed)

/-- The sampled trajectories that reach the horizon, cut to it. -/
def usable (builder : Builder α) (trajectories : List (List (PlanPoint α))) :
    List (List (PlanPoint α)) :=
  (trajectories.filter fun points => decide (builder.horizon.steps ≤ points.length)).map
    (List.take builder.horizon.steps)

def candidates (material : Material α) (resampled : List (PlanPoint α))
    (sampled : List (List (PlanPoint α))) : List (Candidate α) :=
  let executed := material.driven.toList.map fun motion => (Origin.executed, Motion.driven motion)
  let current := (Origin.current, Motion.planned resampled)
  let alternatives := sampled.map fun points => (Origin.sampled, Motion.planned points)
  (executed ++ current :: alternatives).zipIdx.map fun ((origin, motion), generation) =>
    ⟨origin, motion, material.objects, generation⟩

def scoreCandidate (builder : Builder α) (candidate : Candidate α) :
    Except (Fault α) (ScoredCandidate α) := do
  let metrics ← builder.extractor.extract candidate
  return ⟨candidate, metrics, ← builder.scorer.score metrics⟩

def scoreAll (builder : Builder α) (candidates : List (Candidate α)) :
    Except (Fault α) (List (ScoredCandidate α)) :=
  -- Side by side or one after the other, results come in the order of the candidates.
  match builder.workers with
  | some workers =>
      if 1 < workers then
        let tasks := candidates.map fun candidate =>
          Task.spawn fun _ => builder.scoreCandidate candidate
        tasks.mapM Task.get
      else candidates.mapM builder.scoreCandidate
  | none => candidates.mapM builder.scoreCandidate

def rank (builder : Builder α) (clock : Int) (material : Material α)
    (resampled : List (PlanPoint α)) (trajectories : List (List (PlanPoint α))) :
    Except (Fault α) (Outcome Shortage (Ranking α)) := do
  let scored ← builder.scoreAll (candidates material resampled (builder.usable trajectories))
  return .ready (.ofScored clock scored)

def rankMaterial (builder : Builder α) (clock : Int) (material : Material α) : BuildReport α :=
  match material.seed.plan.resample material.seed.odometry builder.horizon with
  | .error fault => ⟨.error fault, []⟩
  | .ok resampled =>
      match builder.request? material.seed with
      | .error fault => ⟨.error fault, []⟩
      | .ok none => ⟨builder.rank clock material resampled [], []⟩
      -- What was asked is reported even if the sampler fails, or the scoring.
      | .ok (some (sampler, request)) =>
          ⟨do builder.rank clock material resampled (← sampler request), [request]⟩

def build (builder : Builder α) (snapshot : Snapshot α) : BuildReport α :=
  match builder.gather snapshot with
  | .error fault => ⟨.error fault, []⟩
  | .ok (.notReady cause) => ⟨.ok (.notReady cause), []⟩
  | .ok (.ready material) => builder.rankMaterial snapshot.clock material

end Builder

end ManeuverRanking
