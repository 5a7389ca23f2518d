import ManeuverRanking.Proofs.Snapshot.Reach
import ManeuverRanking.Replay

/-!
Where the records of a replayed snapshot come from. In order or not, and whether a feed fails or not,
the windows hold records of the drive and nothing later than the playback time.
-/

namespace ManeuverRanking

variable {α : Type}

namespace Replay

def KeptByAppend (keeps : Snapshot α → Prop) (stream : Stream) (time : Int)
    (value : Payload α stream) : Prop :=
  ∀ snapshot stamp next record, keeps snapshot → (snapshot.window stream).key value = .ok stamp →
    stamp ≤ time → snapshot.append stream value = .ok (next, record) → keeps next

variable {keeps : Snapshot α → Prop} {time : Int}

theorem feedRecords_keeps {stream : Stream} {records : List (Payload α stream)}
    (each : ∀ value ∈ records, KeptByAppend keeps stream time value) {snapshot : Snapshot α}
    (holds : keeps snapshot) (fed : Nat) :
    keeps (feedRecords snapshot stream time fed records).snapshot := by
  induction records generalizing snapshot fed with
  | nil => exact holds
  | cons value rest ih =>
      rw [feedRecords]
      split
      · exact holds
      · rename_i stamp read
        split
        · rename_i due
          split
          · exact holds
          · rename_i next record appended
            have still := each value List.mem_cons_self snapshot stamp next record holds read due appended
            exact ih (fun later member => each later (List.mem_cons_of_mem _ member)) still _
        · exact holds

theorem feedStreams_keeps {log : DriveLog α}
    (each : ∀ stream, ∀ value ∈ log.records.get stream, KeptByAppend keeps stream time value)
    {replay : Replay α} (sameLog : replay.log = log) {snapshot : Snapshot α} (holds : keeps snapshot)
    (total : Nat) (streams : List Stream) :
    let progress := replay.feedStreams snapshot time total streams
    keeps progress.snapshot ∧ progress.replay.log = log := by
  induction streams generalizing replay snapshot total with
  | nil => exact ⟨holds, sameLog⟩
  | cons stream rest ih =>
      have pending : ∀ value ∈ replay.pending stream, KeptByAppend keeps stream time value := by
        intro value member
        rw [pending, sameLog] at member
        exact each stream value (List.mem_of_mem_drop member)
      have still := feedRecords_keeps pending holds 0
      simp only [feedStreams]
      split
      · exact ⟨still, sameLog⟩
      · refine ih ?_ still _
        exact sameLog

theorem feedUntil_keeps {log : DriveLog α}
    (each : ∀ stream, ∀ value ∈ log.records.get stream, KeptByAppend keeps stream time value)
    {replay : Replay α} (sameLog : replay.log = log) {snapshot : Snapshot α}
    (holds : keeps snapshot) :
    keeps (replay.feedUntil snapshot time).snapshot ∧
      (replay.feedUntil snapshot time).replay.log = log :=
  feedStreams_keeps each sameLog holds 0 Stream.all

end Replay

namespace Snapshot

structure Drawn (keys : StampKeys α) (log : DriveLog α) (span : Nat) (latest : Int)
    (snapshot : Snapshot α) : Prop where
  kept : snapshot.Kept span
  sameKey : ∀ stream, (snapshot.window stream).key = keys stream
  recorded : ∀ stream, ∀ record ∈ (snapshot.window stream).toList,
    record.value ∈ log.records.get stream
  bounded : ∀ stream, ∀ record ∈ (snapshot.window stream).toList, record.stamp ≤ latest

namespace Drawn

variable {keys : StampKeys α} {log : DriveLog α} {span : Nat} {latest : Int} {snapshot : Snapshot α}

theorem create {clock width : Int} {fresh : Snapshot α}
    (created : Snapshot.create keys clock width = .ok fresh) (latest : Int) :
    Drawn keys log width.toNat latest fresh := by
  have kept := Kept.create created
  obtain ⟨-, rfl⟩ := (Snapshot.create_eq_ok_iff ..).mp created
  constructor
  · exact kept
  · intro stream
    simp [window, Window.empty]
  · intro stream record member
    simp [window, Window.toList, Window.empty] at member
  · intro stream record member
    simp [window, Window.toList, Window.empty] at member

theorem later (drawn : Drawn keys log span latest snapshot) {bound : Int} (after : latest ≤ bound) :
    Drawn keys log span bound snapshot where
  kept := drawn.kept
  sameKey := drawn.sameKey
  recorded := drawn.recorded
  bounded := fun stream record member => Int.le_trans (drawn.bounded stream record member) after

theorem append {stream : Stream} {value : Payload α stream}
    (source : value ∈ log.records.get stream) :
    Replay.KeptByAppend (Drawn keys log span latest) stream latest value := by
  intro snapshot stamp next record drawn read due appended
  have kept := drawn.kept.append appended
  rw [append_eq] at appended
  cases placed : (snapshot.window stream).append value with
  | error fault =>
      rw [placed] at appended
      cases appended
  | ok pair =>
      rw [placed] at appended
      cases appended
      obtain ⟨stamped, same, -, pushed⟩ :=
        ((drawn.kept.inOrder stream).append_eq_ok_iff value pair.1 pair.2).mp placed
      rw [read, Except.ok.injEq] at stamped
      rw [pushed] at kept ⊢
      constructor
      · exact kept
      · apply forall_window_put fun other window => window.key = keys other
        · exact drawn.sameKey stream
        · exact fun other _ => drawn.sameKey other
      · apply forall_window_put fun other window =>
          ∀ record ∈ window.toList, record.value ∈ log.records.get other
        · intro record member
          rw [Window.toList_push] at member
          rcases List.mem_append.mp member with old | new
          · exact drawn.recorded stream record old
          · rw [List.mem_singleton.mp new, same]
            exact source
        · exact fun other _ => drawn.recorded other
      · apply forall_window_put fun _ window => ∀ record ∈ window.toList, record.stamp ≤ latest
        · intro record member
          rw [Window.toList_push] at member
          rcases List.mem_append.mp member with old | new
          · exact drawn.bounded stream record old
          · rw [List.mem_singleton.mp new, ← stamped]
            exact due
        · exact fun other _ => drawn.bounded other

theorem advance (drawn : Drawn keys log span latest snapshot) (step : Int) :
    Drawn keys log span latest (snapshot.advance step) := by
  have subset : ∀ stream, ∀ record ∈ ((snapshot.advance step).window stream).toList,
      record ∈ (snapshot.window stream).toList := by
    intro stream record member
    rw [window_advance, (drawn.kept.inOrder stream).evict_toList] at member
    exact (List.mem_filter.mp member).1
  constructor
  · exact drawn.kept.advance step
  · intro stream
    rw [window_advance]
    exact drawn.sameKey stream
  · exact fun stream record member => drawn.recorded stream record (subset stream record member)
  · exact fun stream record member => drawn.bounded stream record (subset stream record member)

theorem feedUntil (drawn : Drawn keys log span latest snapshot) {replay : Replay α}
    (sameLog : replay.log = log) {time : Int} (after : latest ≤ time) :
    Drawn keys log span time (replay.feedUntil snapshot time).snapshot ∧
      (replay.feedUntil snapshot time).replay.log = log :=
  Replay.feedUntil_keeps (fun _ _ source => Drawn.append source) sameLog (drawn.later after)

theorem exists_of_isReady (drawn : Drawn keys log span latest snapshot) (fresh : snapshot.Fresh)
    (ready : snapshot.isReady = true) (stream : Stream) :
    ∃ value ∈ log.records.get stream, ∃ stamp, keys stream value = .ok stamp ∧
      snapshot.clock + span < stamp ∧ stamp ≤ latest := by
  obtain ⟨record, member, late⟩ := drawn.kept.reaches fresh ready stream
  have read := (drawn.kept.inOrder stream).keyed record member
  rw [drawn.sameKey] at read
  exact ⟨record.value, drawn.recorded stream record member, record.stamp, read, late,
    drawn.bounded stream record member⟩

end Drawn

end Snapshot

end ManeuverRanking
