import ManeuverRanking.Proofs.Horizon
import ManeuverRanking.Proofs.Outcome

/-!
A snapshot with fewer records is a view of another one when whatever it finds is what the other one
finds as well. A build that succeeds on a view is the build on the whole.
-/

namespace ManeuverRanking

/-- What a snapshot finds from its clock on is what another one with that clock finds. -/
structure Snapshot.ViewOf {α : Type} (part whole : Snapshot α) : Prop where
  sameClock : part.clock = whole.clock
  finds : ∀ stream, ∀ time ≥ part.clock, ∀ record,
    (part.window stream).queryAfter time = some record →
      (whole.window stream).queryAfter time = some record

namespace Snapshot.ViewOf

variable {α : Type} {part whole : Snapshot α}

theorem current (view : part.ViewOf whole) {stream : Stream}
    {record : Stamped (Payload α stream)} (found : part.current stream = some record) :
    whole.current stream = some record := by
  rw [Snapshot.current, ← view.sameClock]
  exact view.finds stream part.clock (Int.le_refl _) record found

theorem seed (view : part.ViewOf whole) {seed : Seed α} (ready : part.seed = .ok seed) :
    whole.seed = .ok seed := by
  unfold Snapshot.seed at ready ⊢
  split at ready
  · rename_i odometry acceleration plan
    rw [view.current odometry, view.current acceleration, view.current plan]
    exact ready
  · cases ready

variable [Scalar α] {horizon : Horizon α}

theorem query (view : part.ViewOf whole) (forward : horizon.Forward) {stream : Stream}
    {step : Nat} {record : Stamped (Payload α stream)}
    (found : part.query stream step (some horizon) = .ok (some record)) :
    whole.query stream step (some horizon) = .ok (some record) := by
  unfold Snapshot.query at found ⊢
  split at found
  · rename_i first
    rw [if_pos first]
    simp only [Except.ok.injEq] at found ⊢
    exact view.current found
  · rename_i later
    rw [if_neg later]
    simp only [bind_eq_ok_iff, pure, Except.pure, Except.ok.injEq] at found ⊢
    obtain ⟨offset, timed, found⟩ := found
    have after := forward step offset timed
    refine ⟨offset, timed, ?_⟩
    rw [← view.sameClock]
    exact view.finds stream _ (by omega) record found

theorem collectFrom (view : part.ViewOf whole) (forward : horizon.Forward) {stream : Stream}
    {step remaining : Nat} {values : List (Payload α stream)}
    (ready : part.collectFrom stream horizon step remaining = .ok (.ready values)) :
    whole.collectFrom stream horizon step remaining = .ok (.ready values) := by
  induction remaining generalizing step values with
  | zero => exact ready
  | succ remaining ih =>
      simp only [Snapshot.collectFrom, bind_eq_ok_iff] at ready ⊢
      obtain ⟨record?, found, ready⟩ := ready
      cases record? with
      | none => cases ready
      | some record =>
          simp only [bind_eq_ok_iff, pure, Except.pure, Except.ok.injEq,
            Outcome.map_eq_ready_iff] at ready
          obtain ⟨later, collected, rest, rfl, same⟩ := ready
          refine ⟨some record, view.query forward found, ?_⟩
          simp only [ih collected, bind, Except.bind, pure, Except.pure, Outcome.map, same]

theorem collect (view : part.ViewOf whole) (forward : horizon.Forward) {stream : Stream}
    {values : List (Payload α stream)}
    (ready : part.collect stream horizon = .ok (.ready values)) :
    whole.collect stream horizon = .ok (.ready values) :=
  view.collectFrom forward ready

theorem driven (view : part.ViewOf whole) (forward : horizon.Forward)
    {motion : DrivenMotion α} (ready : part.driven horizon = .ok (.ready motion)) :
    whole.driven horizon = .ok (.ready motion) := by
  simp only [Snapshot.driven, bind_eq_ok_iff, whenReady_eq_ready_iff] at ready ⊢
  obtain ⟨_, first, odometry, rfl, _, second, acceleration, rfl, _, third, steering, rfl, made⟩ :=
    ready
  exact ⟨_, view.collect forward first, odometry, rfl, _, view.collect forward second,
    acceleration, rfl, _, view.collect forward third, steering, rfl, made⟩

theorem gather (view : part.ViewOf whole) {builder : Builder α}
    (forward : builder.horizon.Forward) {material : Material α}
    (ready : builder.gather part = .ok (.ready material)) :
    builder.gather whole = .ok (.ready material) := by
  simp only [Builder.gather, bind_eq_ok_iff, whenReady_eq_ready_iff] at ready ⊢
  obtain ⟨seed, seeded, _, collected, objects, rfl, rest⟩ := ready
  refine ⟨seed, view.seed seeded, _, view.collect forward collected, objects, rfl, ?_⟩
  by_cases executed : builder.includeExecuted
  · simp only [executed, if_true, bind_eq_ok_iff, whenReady_eq_ready_iff] at rest ⊢
    obtain ⟨_, drove, motion, rfl, made⟩ := rest
    exact ⟨_, view.driven forward drove, motion, rfl, made⟩
  · simp only [executed] at rest ⊢
    exact rest

/-- A build that succeeds on a view is the build on the whole snapshot. -/
theorem build (view : part.ViewOf whole) {builder : Builder α}
    (forward : builder.horizon.Forward) {ranking : Ranking α}
    (ready : (builder.build part).outcome = .ok (.ready ranking)) :
    builder.build whole = builder.build part := by
  cases gathered : builder.gather part with
  | error fault => simp [Builder.build, gathered] at ready
  | ok outcome =>
      cases outcome with
      | notReady cause => simp [Builder.build, gathered] at ready
      | ready material =>
          simp only [Builder.build, gathered, view.gather forward gathered, view.sameClock]

end Snapshot.ViewOf

end ManeuverRanking
