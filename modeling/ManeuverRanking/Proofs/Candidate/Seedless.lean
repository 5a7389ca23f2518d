import ManeuverRanking.Proofs.Candidate.Stages
import ManeuverRanking.Proofs.Metric.Horizon

/-!
Gaps in the seed come from the seed alone. Nothing else that a build goes through fails for a missing
record or for an empty plan, whatever it is given.
-/

namespace ManeuverRanking

variable {α β γ : Type}

def Seedless : Except (Fault α) β → Prop
  | .error (.noSeed _) => False
  | _ => True

namespace Seedless

theorem ne_noSeed {outcome : Except (Fault α) β} (seedless : Seedless outcome) (gap : SeedGap) :
    outcome ≠ .error (.noSeed gap) := by
  rintro rfl
  exact seedless

theorem bind {first : Except (Fault α) β} {next : β → Except (Fault α) γ} (seedless : Seedless first)
    (later : ∀ value, Seedless (next value)) : Seedless (first >>= next) := by
  cases first with
  | ok value => exact later value
  | error fault =>
      cases fault with
      | noSeed gap => exact seedless
      | _ => trivial

theorem mapM {step : β → Except (Fault α) γ} (each : ∀ value, Seedless (step value))
    (values : List β) : Seedless (values.mapM step) := by
  induction values with
  | nil => trivial
  | cons value rest ih =>
      rw [List.mapM_cons]
      exact (each value).bind fun _ => ih.bind fun _ => trivial

theorem whenReady {reason : Type} {outcome : Outcome reason β}
    {next : β → Except (Fault α) (Outcome reason γ)} (later : ∀ value, Seedless (next value)) :
    Seedless (whenReady outcome next) := by
  cases outcome with
  | ready value => exact later value
  | notReady cause => trivial

theorem error_of {fault : Fault α} (seedless : Seedless (.error fault : Except (Fault α) β)) :
    Seedless (.error fault : Except (Fault α) γ) := by
  cases fault with
  | noSeed gap => exact seedless
  | _ => trivial

end Seedless

theorem Ensures.seedless {outcome : Except (Fault α) β} {kept : β → Prop}
    (ensures : Ensures Fault.OfData kept outcome) : Seedless outcome := by
  cases outcome with
  | ok value => trivial
  | error fault =>
      cases fault with
      | noSeed gap => exact False.elim ensures
      | _ => trivial

theorem Supplied.seedless {outcome : Except (Fault α) β} (supplied : Supplied outcome) :
    Seedless outcome :=
  Ensures.seedless supplied

variable [Scalar α]

theorem seedless_driven (snapshot : Snapshot α) (horizon : Horizon α) :
    Seedless (snapshot.driven horizon) := by
  apply (ensures_collectFrom ..).seedless.bind
  intro _
  apply Seedless.whenReady
  intro _
  apply (ensures_collectFrom ..).seedless.bind
  intro _
  apply Seedless.whenReady
  intro _
  apply (ensures_collectFrom ..).seedless.bind
  intro _
  exact Seedless.whenReady fun _ => trivial

section Scoring

theorem seedless_extract (extractor : Extractor α) (candidate : Candidate α) :
    Seedless (extractor.extract candidate) := by
  cases short : candidate.firstShort? extractor.horizon.steps with
  | some history =>
      rw [extractor.refuses_extract candidate history.1 history.2 short]
      trivial
  | none =>
      have reaches := (candidate.firstShort?_eq_none_iff _).mp short
      exact (Extractor.ensures_extract reaches (extractor.operates_ofData candidate)).seedless

theorem seedless_scoreCandidate (builder : Builder α) (candidate : Candidate α) :
    Seedless (builder.scoreCandidate candidate) := by
  apply (seedless_extract ..).bind
  intro metrics
  exact (supplied_score ..).seedless.bind fun _ => trivial

theorem seedless_rank (builder : Builder α) (clock : Int) (material : Material α)
    (resampled : List (PlanPoint α)) (trajectories : List (List (PlanPoint α))) :
    Seedless (builder.rank clock material resampled trajectories) := by
  unfold Builder.rank
  rw [Builder.scoreAll_eq_mapM]
  exact (Seedless.mapM (seedless_scoreCandidate builder) _).bind fun _ => trivial

end Scoring

theorem seedless_gather (builder : Builder α) {snapshot : Snapshot α}
    (seedless : Seedless snapshot.seed) : Seedless (builder.gather snapshot) := by
  apply seedless.bind
  intro _
  apply (ensures_collectFrom ..).seedless.bind
  intro _
  apply Seedless.whenReady
  intro _
  split
  · apply (seedless_driven ..).bind
    intro _
    exact Seedless.whenReady fun _ => trivial
  · trivial

theorem seedless_constantSpeeds (speeds : List α) (count : Nat) (offset : α)
    (request : SamplerRequest α) : Seedless (Sampler.constantSpeeds speeds count offset request) :=
  (supplied_constantSpeeds ..).seedless

def Builder.Quiet (builder : Builder α) : Prop :=
  ∀ sampler, builder.sampler = some sampler → ∀ request, Seedless (sampler request)

def Builder.QuietOn (builder : Builder α) (requests : List (SamplerRequest α)) : Prop :=
  ∀ sampler, builder.sampler = some sampler → ∀ request ∈ requests, Seedless (sampler request)

theorem Builder.Quiet.on {builder : Builder α} (quiet : builder.Quiet)
    (requests : List (SamplerRequest α)) : builder.QuietOn requests :=
  fun sampler own request _ => quiet sampler own request

theorem seedless_rankMaterial {builder : Builder α} {clock : Int} {material : Material α}
    (quiet : builder.QuietOn (builder.rankMaterial clock material).requests) :
    Seedless (builder.rankMaterial clock material).outcome := by
  have resampled :=
    (ensures_resample material.seed.plan material.seed.odometry builder.horizon).seedless
  have asked := (supplied_request? builder material.seed).seedless
  unfold Builder.rankMaterial at quiet ⊢
  split
  · rename_i failed
    rw [failed] at resampled
    exact resampled.error_of
  · rename_i walked
    rw [walked] at quiet
    split
    · rename_i failed
      rw [failed] at asked
      exact asked.error_of
    · exact seedless_rank ..
    · rename_i sampler request found
      rw [found] at quiet
      have answer := quiet sampler ((builder.request?_eq_some_iff ..).mp found).1 request
        (List.mem_singleton_self _)
      exact answer.bind fun _ => seedless_rank ..

theorem build_eq_noSeed_iff {builder : Builder α} {snapshot : Snapshot α}
    (quiet : builder.QuietOn (builder.build snapshot).requests) (gap : SeedGap) :
    (builder.build snapshot).outcome = .error (.noSeed gap) ↔
      snapshot.seed = .error (.noSeed gap) := by
  constructor
  · intro failed
    unfold Builder.build at failed quiet
    split at failed
    · rename_i fault gathered
      cases failed
      cases seeded : snapshot.seed with
      | error fault =>
          rw [Builder.gather, seeded] at gathered
          cases gathered
          rfl
      | ok seed =>
          -- With a seed at hand no later step fails for a gap, the sampler included.
          have seedless : Seedless snapshot.seed := by
            rw [seeded]
            trivial
          exact absurd gathered ((seedless_gather builder seedless).ne_noSeed gap)
    · cases failed
    · rename_i material gathered
      rw [gathered] at quiet
      exact absurd failed ((seedless_rankMaterial quiet).ne_noSeed gap)
  · intro failed
    have gathered : builder.gather snapshot = .error (.noSeed gap) := by
      rw [Builder.gather, failed]
      rfl
    rw [Builder.build, gathered]

end ManeuverRanking
