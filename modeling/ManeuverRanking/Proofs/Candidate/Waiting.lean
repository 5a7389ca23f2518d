import ManeuverRanking.Proofs.Candidate.Reach
import ManeuverRanking.Proofs.Candidate.Stages
import ManeuverRanking.Proofs.Snapshot.Sampling

/-!
When a build comes to nothing. It fails for a gap in the seed if a stream of the seed ends before
the clock or the next plan has no points, and it waits if a history it needs runs out.
-/

namespace ManeuverRanking

variable {α : Type}

namespace Snapshot

/-- A stream of the seed ends before the clock, or the first later plan has no points. -/
def LacksSeed (snapshot : Snapshot α) : Prop :=
  (∃ stream ∈ seedStreams, ¬ (snapshot.window stream).Reaches snapshot.clock) ∨
    ∃ plan, snapshot.firstLater .plan = some plan ∧ plan.value.points = []

def drivenStreams : List Stream :=
  [.odometry, .acceleration, .steering]

theorem seed_eq_ok_iff (snapshot : Snapshot α) (seed : Seed α) :
    snapshot.seed = .ok seed ↔ ∃ odometry acceleration plan,
      snapshot.current .odometry = some odometry ∧
      snapshot.current .acceleration = some acceleration ∧
      snapshot.current .plan = some plan ∧ plan.value.points ≠ [] ∧
      ⟨odometry.value, acceleration.value, plan.value⟩ = seed := by
  unfold Snapshot.seed
  cases snapshot.current .odometry with
  | none => simp
  | some odometry =>
      cases snapshot.current .acceleration with
      | none => simp
      | some acceleration =>
          cases snapshot.current .plan with
          | none => simp
          | some plan => by_cases empty : plan.value.points = [] <;> simp [empty]

theorem exists_gap_iff (snapshot : Snapshot α) :
    (∃ gap, snapshot.seed = .error (.noSeed gap)) ↔ ∀ seed, snapshot.seed ≠ .ok seed := by
  constructor
  · rintro ⟨gap, failed⟩ seed found
    rw [failed] at found
    cases found
  · intro never
    cases found : snapshot.seed with
    | ok seed => exact absurd found (never seed)
    | error fault =>
        obtain ⟨gap, rfl⟩ := exists_gap_of_seed found
        exact ⟨gap, rfl⟩

theorem Kept.lacksSeed_iff {span : Nat} {snapshot : Snapshot α} (kept : Kept span snapshot) :
    (∃ gap, snapshot.seed = .error (.noSeed gap)) ↔ snapshot.LacksSeed := by
  have missing (stream : Stream) :
      ¬ (snapshot.window stream).Reaches snapshot.clock ↔ snapshot.firstLater stream = none := by
    rw [← kept.current_eq]
    exact ((kept.inOrder stream).queryAfter_eq_none_iff snapshot.clock).symm
  simp only [exists_gap_iff, LacksSeed, missing, ne_eq, seed_eq_ok_iff, kept.current_eq,
    seedStreams, List.mem_cons, List.not_mem_nil, or_false, exists_eq_or_imp, exists_eq_left]
  cases snapshot.firstLater .odometry with
  | none => simp
  | some odometry =>
      cases snapshot.firstLater .acceleration with
      | none => simp
      | some acceleration =>
          cases snapshot.firstLater .plan with
          | none => simp
          | some plan => simp

variable [Scalar α]

def RunsShort (snapshot : Snapshot α) (horizon : Horizon α) (withDriven : Bool) : Prop :=
  snapshot.RunsOut horizon .objects ∨
    withDriven = true ∧ ∃ stream ∈ drivenStreams, snapshot.RunsOut horizon stream

theorem Kept.driven_waits_iff {span : Nat} {snapshot : Snapshot α} (kept : Kept span snapshot)
    {horizon : Horizon α} {outcome : Outcome Shortage (DrivenMotion α)}
    (done : snapshot.driven horizon = .ok outcome) :
    outcome.isReady = false ↔ ∃ stream ∈ drivenStreams, snapshot.RunsOut horizon stream := by
  have short : outcome.isReady = false ↔ snapshot.RunsOut horizon .odometry ∨
      snapshot.RunsOut horizon .acceleration ∨ snapshot.RunsOut horizon .steering ∨ False := by
    apply waits_iff_of_bind done fun _ => kept.collect_waits_iff
    intro odometry _ done
    apply waits_iff_of_bind done fun _ => kept.collect_waits_iff
    intro acceleration _ done
    apply waits_iff_of_bind done fun _ => kept.collect_waits_iff
    intro steering _ done
    cases done
    simp [Outcome.isReady]
  simpa [drivenStreams] using short

end Snapshot

namespace Builder

variable [Scalar α]

theorem gather_waits_iff {span : Nat} {snapshot : Snapshot α} (kept : snapshot.Kept span)
    {builder : Builder α} {outcome : Outcome Shortage (Material α)}
    (done : builder.gather snapshot = .ok outcome) :
    outcome.isReady = false ↔ snapshot.RunsShort builder.horizon builder.includeExecuted := by
  obtain ⟨seed, -, done⟩ := (bind_eq_ok_iff ..).mp done
  apply waits_iff_of_bind done fun _ => kept.collect_waits_iff
  intro objects _ done
  cases executed : builder.includeExecuted with
  | false =>
      rw [executed] at done
      cases done
      simp [Outcome.isReady]
  | true =>
      rw [executed] at done
      have driven : outcome.isReady = false ↔
          (∃ stream ∈ Snapshot.drivenStreams, snapshot.RunsOut builder.horizon stream) ∨ False := by
        apply waits_iff_of_bind done fun _ => kept.driven_waits_iff
        intro motion _ done
        cases done
        simp [Outcome.isReady]
      simpa only [true_and, or_false] using driven

theorem isReady_rankMaterial {builder : Builder α} {clock : Int} {material : Material α}
    {outcome : Outcome Shortage (Ranking α)}
    (done : (builder.rankMaterial clock material).outcome = .ok outcome) :
    outcome.isReady = true := by
  simp only [rankMaterial_outcome, bind_eq_ok_iff, rank, pure, Except.pure, Except.ok.injEq] at done
  obtain ⟨_, -, _, -, _, -, rfl⟩ := done
  rfl

theorem build_waits_iff {span : Nat} {snapshot : Snapshot α} (kept : snapshot.Kept span)
    {builder : Builder α} {outcome : Outcome Shortage (Ranking α)}
    (done : (builder.build snapshot).outcome = .ok outcome) :
    outcome.isReady = false ↔ snapshot.RunsShort builder.horizon builder.includeExecuted := by
  rw [build_outcome] at done
  have short : outcome.isReady = false ↔
      snapshot.RunsShort builder.horizon builder.includeExecuted ∨ False := by
    apply waits_iff_of_bind done fun _ => gather_waits_iff kept
    intro material _ done
    simp [isReady_rankMaterial done]
  simpa only [or_false] using short

end Builder

end ManeuverRanking
