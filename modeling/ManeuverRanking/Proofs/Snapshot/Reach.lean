import ManeuverRanking.Proofs.Snapshot
import ManeuverRanking.Proofs.Window.Reach

/-!
How far a snapshot reaches. Behind an advance no window holds a record older than the clock, so a
ready snapshot reaches further than the span of its windows behind the clock.
-/

namespace ManeuverRanking

variable {α : Type}

namespace Snapshot

structure Kept (span : Nat) (snapshot : Snapshot α) : Prop where
  inOrder : ∀ stream, (snapshot.window stream).InOrder
  sameSpan : ∀ stream, (snapshot.window stream).span = span

def Reaches (snapshot : Snapshot α) (time : Int) : Prop :=
  ∀ stream, (snapshot.window stream).Reaches time

def Fresh (snapshot : Snapshot α) : Prop :=
  ∀ stream, (snapshot.window stream).Since snapshot.clock

namespace Kept

variable {span : Nat} {snapshot : Snapshot α}

theorem create {keys : StampKeys α} {clock width : Int} {fresh : Snapshot α}
    (created : Snapshot.create keys clock width = .ok fresh) : Kept width.toNat fresh := by
  obtain ⟨-, rfl⟩ := (Snapshot.create_eq_ok_iff ..).mp created
  constructor
  · intro stream
    simp only [window, PerStream.get_ofFn]
    exact Window.empty_inOrder _ _
  · intro stream
    simp only [window, PerStream.get_ofFn]
    rfl

theorem append (kept : Kept span snapshot) {stream : Stream} {value : Payload α stream}
    {next : Snapshot α} {record : Stamped (Payload α stream)}
    (appended : snapshot.append stream value = .ok (next, record)) : Kept span next := by
  rw [append_eq] at appended
  cases placed : (snapshot.window stream).append value with
  | error fault =>
      rw [placed] at appended
      cases appended
  | ok pair =>
      rw [placed] at appended
      cases appended
      obtain ⟨read, same, follows, pushed⟩ :=
        ((kept.inOrder stream).append_eq_ok_iff value pair.1 pair.2).mp placed
      rw [← same] at read
      rw [pushed]
      constructor
      · apply forall_window_put fun _ window => window.InOrder
        · exact (kept.inOrder stream).push_inOrder pair.2 read follows
        · exact fun other _ => kept.inOrder other
      · apply forall_window_put fun _ window => window.span = span
        · exact kept.sameSpan stream
        · exact fun other _ => kept.sameSpan other

theorem advance (kept : Kept span snapshot) (step : Int) : Kept span (snapshot.advance step) := by
  constructor
  · intro stream
    rw [window_advance]
    exact (kept.inOrder stream).evict_inOrder _
  · intro stream
    rw [window_advance]
    exact kept.sameSpan stream

theorem fresh_advance (kept : Kept span snapshot) (step : Int) : (snapshot.advance step).Fresh := by
  intro stream
  rw [window_advance]
  exact (kept.inOrder stream).since_evict _

theorem reaches (kept : Kept span snapshot) (fresh : snapshot.Fresh)
    (ready : snapshot.isReady = true) : snapshot.Reaches (snapshot.clock + span) := by
  intro stream
  have each := List.all_eq_true.mp ready stream stream.mem_all
  have reached := (kept.inOrder stream).reaches_of_isReady each (fresh stream)
  rw [kept.sameSpan] at reached
  exact reached

theorem isSome_queryAfter (kept : Kept span snapshot) {reach : Int}
    (reaches : snapshot.Reaches reach) (stream : Stream) {time : Int} (before : time ≤ reach) :
    ((snapshot.window stream).queryAfter time).isSome = true :=
  ((kept.inOrder stream).isSome_queryAfter_iff time).mpr ((reaches stream).earlier before)

end Kept

end Snapshot

end ManeuverRanking
