import ManeuverRanking.Proofs.Candidate.Seedless
import ManeuverRanking.Proofs.Horizon
import ManeuverRanking.Proofs.Snapshot.Reach

/-!
Builds on a snapshot whose windows all reach the last step of the horizon. No history runs out, and
the only gap there can be in the seed is an empty plan.
-/

namespace ManeuverRanking

variable {α : Type}

theorem Snapshot.Kept.seed_fails_iff {span : Nat} {snapshot : Snapshot α} (kept : Kept span snapshot)
    {reach : Int} (reaches : snapshot.Reaches reach) (ahead : snapshot.clock ≤ reach) :
    (∃ gap, snapshot.seed = .error (.noSeed gap)) ↔
      ∃ plan, snapshot.current .plan = some plan ∧ plan.value.points = [] := by
  have present (stream : Stream) : (snapshot.current stream).isSome = true :=
    kept.isSome_queryAfter reaches stream ahead
  obtain ⟨odometry, driven⟩ := Option.isSome_iff_exists.mp (present .odometry)
  obtain ⟨acceleration, felt⟩ := Option.isSome_iff_exists.mp (present .acceleration)
  obtain ⟨plan, planned⟩ := Option.isSome_iff_exists.mp (present .plan)
  simp only [seed, driven, felt, planned, Option.some.injEq, exists_eq_left', List.isEmpty_iff]
  by_cases empty : plan.value.points = []
  · simp [empty]
  · simp [empty]

theorem Snapshot.exists_gap_of_seed {snapshot : Snapshot α} {fault : Fault α}
    (failed : snapshot.seed = .error fault) : ∃ gap, fault = .noSeed gap := by
  unfold seed at failed
  split at failed
  · split at failed
    · cases failed
      exact ⟨_, rfl⟩
    · cases failed
  · cases failed
    exact ⟨_, rfl⟩

variable [Scalar α]

def Horizon.Within (horizon : Horizon α) (reach : Int) : Prop :=
  ∀ (step : Nat) (offset : Int), step < horizon.steps → horizon.stepOffset step = .ok offset →
    offset ≤ reach

theorem Horizon.Steady.within {horizon : Horizon α} (steady : horizon.Steady) {reach : Int}
    (last : horizon.stepOffset (horizon.steps - 1) = .ok reach) : horizon.Within reach := by
  intro step offset inside timed
  have positive := horizon.steps_pos
  have final : (horizon.steps : Int) - 1 = ((horizon.steps - 1 : Nat) : Int) := by omega
  rw [final] at last
  exact steady step (horizon.steps - 1) offset reach (by omega) timed last

theorem Horizon.Forward.last_nonneg {horizon : Horizon α} (forward : horizon.Forward) {reach : Int}
    (last : horizon.stepOffset (horizon.steps - 1) = .ok reach) : 0 ≤ reach := by
  have positive := horizon.steps_pos
  have final : (horizon.steps : Int) - 1 = ((horizon.steps - 1 : Nat) : Int) := by omega
  rw [final] at last
  exact forward (horizon.steps - 1) reach last

def NeverShort {ε reason β : Type} (outcome : Except ε (Outcome reason β)) : Prop :=
  ∀ cause, outcome ≠ .ok (.notReady cause)

namespace NeverShort

variable {ε reason β γ : Type}

theorem bind {first : Except ε β} {next : β → Except ε (Outcome reason γ)}
    (later : ∀ value, NeverShort (next value)) : NeverShort (first >>= next) := by
  cases first with
  | error fault => nofun
  | ok value => exact later value

theorem bind_whenReady {first : Except ε (Outcome reason β)}
    {next : β → Except ε (Outcome reason γ)} (full : NeverShort first)
    (later : ∀ value, NeverShort (next value)) :
    NeverShort (first >>= fun outcome => whenReady outcome next) := by
  cases first with
  | error fault => nofun
  | ok outcome =>
      cases outcome with
      | ready value => exact later value
      | notReady cause => exact absurd rfl (full cause)

end NeverShort

namespace Snapshot.Kept

variable {span : Nat} {snapshot : Snapshot α} {horizon : Horizon α} {reach : Int}

theorem isSome_query (kept : Kept span snapshot)
    (reaches : snapshot.Reaches (snapshot.clock + reach)) (positive : 0 ≤ reach)
    (within : horizon.Within reach) {stream : Stream} {step : Nat} (inside : step < horizon.steps)
    {found : Option (Stamped (Payload α stream))}
    (queried : snapshot.query stream step (some horizon) = .ok found) : found.isSome = true := by
  unfold query at queried
  split at queried
  · cases queried
    exact kept.isSome_queryAfter reaches stream (by omega)
  · simp only [bind_eq_ok_iff, pure, Except.pure, Except.ok.injEq] at queried
    obtain ⟨offset, timed, rfl⟩ := queried
    have bound := within step offset inside timed
    exact kept.isSome_queryAfter reaches stream (by omega)

theorem neverShort_collectFrom (kept : Kept span snapshot)
    (reaches : snapshot.Reaches (snapshot.clock + reach)) (positive : 0 ≤ reach)
    (within : horizon.Within reach) (stream : Stream) {step remaining : Nat}
    (inside : step + remaining ≤ horizon.steps) :
    NeverShort (snapshot.collectFrom stream horizon step remaining) := by
  intro cause short
  induction remaining generalizing step with
  | zero => cases short
  | succ remaining ih =>
      simp only [collectFrom, bind_eq_ok_iff] at short
      obtain ⟨found, queried, short⟩ := short
      have present := kept.isSome_query reaches positive within (by omega) queried
      cases found with
      | none => cases present
      | some record =>
          simp only [bind_eq_ok_iff, pure, Except.pure, Except.ok.injEq] at short
          obtain ⟨later, collected, mapped⟩ := short
          cases later with
          | ready values => cases mapped
          | notReady other =>
              cases mapped
              exact ih (by omega) collected

theorem neverShort_collect (kept : Kept span snapshot)
    (reaches : snapshot.Reaches (snapshot.clock + reach)) (positive : 0 ≤ reach)
    (within : horizon.Within reach) (stream : Stream) :
    NeverShort (snapshot.collect stream horizon) :=
  kept.neverShort_collectFrom reaches positive within stream (Nat.le_of_eq (Nat.zero_add _))

theorem neverShort_driven (kept : Kept span snapshot)
    (reaches : snapshot.Reaches (snapshot.clock + reach)) (positive : 0 ≤ reach)
    (within : horizon.Within reach) : NeverShort (snapshot.driven horizon) := by
  have held := kept.neverShort_collect reaches positive within
  apply (held .odometry).bind_whenReady
  intro odometry
  apply (held .acceleration).bind_whenReady
  intro acceleration
  apply (held .steering).bind_whenReady
  intro steering
  nofun

theorem neverShort_gather {builder : Builder α} (kept : Kept span snapshot)
    (reaches : snapshot.Reaches (snapshot.clock + reach)) (positive : 0 ≤ reach)
    (within : builder.horizon.Within reach) : NeverShort (builder.gather snapshot) := by
  apply NeverShort.bind
  intro seed
  apply (kept.neverShort_collect reaches positive within .objects).bind_whenReady
  intro objects
  split
  · apply (kept.neverShort_driven reaches positive within).bind_whenReady
    intro driven
    nofun
  · nofun

end Snapshot.Kept

theorem neverShort_rankMaterial (builder : Builder α) (clock : Int) (material : Material α) :
    NeverShort (builder.rankMaterial clock material).outcome := by
  have ranked (trajectories : List (List (PlanPoint α))) (resampled : List (PlanPoint α)) :
      NeverShort (builder.rank clock material resampled trajectories) := by
    apply NeverShort.bind
    intro scored
    nofun
  unfold Builder.rankMaterial
  split
  · nofun
  · split
    · nofun
    · exact ranked _ _
    · apply NeverShort.bind
      exact fun trajectories => ranked trajectories _

namespace Snapshot.Kept

variable {span : Nat} {snapshot : Snapshot α} {builder : Builder α} {reach : Int}

theorem neverShort_build (kept : Kept span snapshot)
    (reaches : snapshot.Reaches (snapshot.clock + reach)) (positive : 0 ≤ reach)
    (within : builder.horizon.Within reach) : NeverShort (builder.build snapshot).outcome := by
  intro cause short
  have gathered := kept.neverShort_gather reaches positive within
  unfold Builder.build at short
  split at short
  · cases short
  · rename_i missing
    exact gathered _ missing
  · exact neverShort_rankMaterial _ _ _ cause short

end Snapshot.Kept

end ManeuverRanking
