import ManeuverRanking.Proofs.Outcome
import ManeuverRanking.Proofs.Snapshot.Reach

/-!
What sampling a snapshot finds, told by the records its windows hold. A stream runs out within a
horizon when no record is later than some step of it, and that is all that collecting can miss.
-/

namespace ManeuverRanking

variable {α : Type}

theorem Window.InOrder.queryAfter_eq_none_iff {β : Type} {window : Window α β}
    (inOrder : window.InOrder) (time : Int) :
    window.queryAfter time = none ↔ ¬ window.Reaches time := by
  rw [← inOrder.isSome_queryAfter_iff]
  cases window.queryAfter time <;> simp

namespace Snapshot

/-- A snapshot that appends, advances and evictions lead to from empty windows. -/
inductive Reachable : Snapshot α → Prop
  | create {keys : StampKeys α} {clock span : Int} {fresh : Snapshot α}
      (created : Snapshot.create keys clock span = .ok fresh) : Reachable fresh
  | append {before after : Snapshot α} {stream : Stream} {value : Payload α stream}
      {record : Stamped (Payload α stream)} (reached : Reachable before)
      (appended : before.append stream value = .ok (after, record)) : Reachable after
  | advance {before : Snapshot α} (reached : Reachable before) (step : Int) :
      Reachable (before.advance step)
  | evict {before : Snapshot α} (reached : Reachable before) : Reachable before.evict

theorem Kept.evict {span : Nat} {snapshot : Snapshot α} (kept : Kept span snapshot) :
    Kept span snapshot.evict := by
  have idle : snapshot.advance 0 = snapshot.evict := by
    simp only [Snapshot.advance, Int.add_zero]
  rw [← idle]
  exact kept.advance 0

theorem Reachable.kept {snapshot : Snapshot α} (reached : snapshot.Reachable) :
    ∃ span, Kept span snapshot := by
  induction reached with
  | create created => exact ⟨_, Kept.create created⟩
  | append _ appended ih =>
      obtain ⟨span, kept⟩ := ih
      exact ⟨span, kept.append appended⟩
  | advance _ step ih =>
      obtain ⟨span, kept⟩ := ih
      exact ⟨span, kept.advance step⟩
  | evict _ ih =>
      obtain ⟨span, kept⟩ := ih
      exact ⟨span, kept.evict⟩

def firstLater (snapshot : Snapshot α) (stream : Stream) : Option (Stamped (Payload α stream)) :=
  (snapshot.window stream).toList.find? fun record => decide (snapshot.clock < record.stamp)

theorem Kept.current_eq {span : Nat} {snapshot : Snapshot α} (kept : Kept span snapshot)
    (stream : Stream) : snapshot.current stream = snapshot.firstLater stream :=
  (kept.inOrder stream).queryAfter_eq_find? snapshot.clock

variable [Scalar α]

def stepTime (snapshot : Snapshot α) (horizon : Horizon α) (step : Nat) : Except (Fault α) Int :=
  if step = 0 then .ok snapshot.clock
  else do return snapshot.clock + (← horizon.stepOffset step)

def RunsOut (snapshot : Snapshot α) (horizon : Horizon α) (stream : Stream) : Prop :=
  ∃ step < horizon.steps, ∃ time, snapshot.stepTime horizon step = .ok time ∧
    ¬ (snapshot.window stream).Reaches time

theorem query_eq (snapshot : Snapshot α) (stream : Stream) (horizon : Horizon α) (step : Nat) :
    snapshot.query stream step (some horizon) =
      (snapshot.stepTime horizon step).map (snapshot.window stream).queryAfter := by
  unfold query stepTime current
  by_cases first : step = 0
  · simp only [first, Int.natCast_zero, if_true]
    rfl
  · have later : (step : Int) ≠ 0 := by omega
    simp only [first, later, if_false]
    cases horizon.stepOffset step <;> rfl

theorem Kept.query_eq_none_iff {span : Nat} {snapshot : Snapshot α} (kept : Kept span snapshot)
    (stream : Stream) (horizon : Horizon α) (step : Nat) :
    snapshot.query stream step (some horizon) = .ok none ↔
      ∃ time, snapshot.stepTime horizon step = .ok time ∧
        ¬ (snapshot.window stream).Reaches time := by
  rw [query_eq]
  cases timed : snapshot.stepTime horizon step with
  | error fault => simp [Except.map]
  | ok time => simp [Except.map, (kept.inOrder stream).queryAfter_eq_none_iff]

theorem collectFrom_waits_iff {snapshot : Snapshot α} {stream : Stream} {horizon : Horizon α}
    {step remaining : Nat} {outcome : Outcome Shortage (List (Payload α stream))}
    (done : snapshot.collectFrom stream horizon step remaining = .ok outcome) :
    outcome.isReady = false ↔ ∃ later, step ≤ later ∧ later < step + remaining ∧
      snapshot.query stream later (some horizon) = .ok none := by
  induction remaining generalizing step outcome with
  | zero =>
      cases done
      simp only [Outcome.isReady, Bool.true_eq_false, false_iff, not_exists]
      rintro later ⟨lower, upper, -⟩
      omega
  | succ remaining ih =>
      simp only [collectFrom, bind_eq_ok_iff] at done
      obtain ⟨found, queried, done⟩ := done
      cases found with
      | none =>
          cases done
          simp only [Outcome.isReady, true_iff]
          exact ⟨step, Nat.le_refl _, by omega, queried⟩
      | some record =>
          simp only [bind_eq_ok_iff, pure, Except.pure, Except.ok.injEq] at done
          obtain ⟨rest, collected, rfl⟩ := done
          have same : (rest.map (record.value :: ·)).isReady = rest.isReady := by
            cases rest <;> rfl
          rw [same, ih collected]
          constructor
          · rintro ⟨later, lower, upper, missing⟩
            exact ⟨later, by omega, by omega, missing⟩
          · rintro ⟨later, lower, upper, missing⟩
            -- This step has found a record, so the missing one comes later.
            have beyond : later ≠ step := by
              rintro rfl
              rw [queried] at missing
              cases missing
            exact ⟨later, by omega, by omega, missing⟩

theorem Kept.collect_waits_iff {span : Nat} {snapshot : Snapshot α} (kept : Kept span snapshot)
    {stream : Stream} {horizon : Horizon α} {outcome : Outcome Shortage (List (Payload α stream))}
    (done : snapshot.collect stream horizon = .ok outcome) :
    outcome.isReady = false ↔ snapshot.RunsOut horizon stream := by
  rw [collectFrom_waits_iff done]
  simp only [kept.query_eq_none_iff, Nat.zero_le, Nat.zero_add, true_and]
  rfl

end Snapshot

end ManeuverRanking
