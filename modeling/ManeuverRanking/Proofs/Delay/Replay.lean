import ManeuverRanking.Proofs.Delay.Snapshot
import ManeuverRanking.Replay

/-!
Replays of a drive recorded some time later. A feed up to a time that is as much later plays the same
records.
-/

namespace ManeuverRanking

def DriveLog.Good {α : Type} (good : (stream : Stream) → Payload α stream → Prop)
    (log : DriveLog α) : Prop :=
  ∀ stream, ∀ value ∈ log.records.get stream, good stream value

namespace Replay

variable {α : Type}

def delay (time : Int) (replay : Replay α) : Replay α :=
  ⟨replay.log.delay time, replay.cursors⟩

theorem pending_delay (time : Int) (replay : Replay α) (stream : Stream) :
    (replay.delay time).pending stream =
      (replay.pending stream).map (Payload.delay time stream) := by
  simp only [pending, delay, DriveLog.get_delay, List.map_drop]

variable {good : (stream : Stream) → Payload α stream → Prop} {snapshot : Snapshot α}

theorem feedRecords_delay (timed : snapshot.Timed good) (time : Int) (stream : Stream)
    (until' : Int) (fed : Nat) {records : List (Payload α stream)}
    (fits : ∀ value ∈ records, good stream value) :
    let played := feedRecords snapshot stream until' fed records
    let played' := feedRecords (snapshot.delay time) stream (until' + time) fed
      (records.map (Payload.delay time stream))
    played.snapshot.Timed good ∧ played'.snapshot = played.snapshot.delay time ∧
      Alike Eq played.count played'.count := by
  induction records generalizing snapshot fed with
  | nil => exact ⟨timed, rfl, rfl⟩
  | cons record rest ih =>
      have key : (snapshot.window stream).key record = recordStamp stream record := by
        rw [timed.sameKey]
      have key' : ((snapshot.delay time).window stream).key (Payload.delay time stream record) =
          (recordStamp stream record).map (· + time) := by
        rw [Snapshot.window_delay]
        change (snapshot.window stream).key _ = _
        rw [timed.sameKey, recordStamp_delay]
      simp only [List.map_cons, feedRecords, key, key']
      cases recordStamp stream record with
      | error fault => exact ⟨timed, rfl, rfl⟩
      | ok stamp =>
          simp only [Except.map, Int.add_le_add_iff_right]
          -- Stamps and the time of the feed move alike, so both feeds stop at the same record.
          by_cases due : stamp ≤ until'
          · have placing := Snapshot.append_delay timed time stream
              (fits record List.mem_cons_self)
            rw [if_pos due, if_pos due]
            rcases placing.cases_on with
              ⟨_, _, failed, failed', same⟩ | ⟨_, _, placed, placed', next, moved⟩
            · rw [failed, failed']
              exact ⟨timed, rfl, same⟩
            · simp only [placed, placed', moved]
              exact ih next (fed + 1)
                fun value member => fits value (List.mem_cons_of_mem _ member)
          · rw [if_neg due, if_neg due]
            exact ⟨timed, rfl, rfl⟩

variable {replay : Replay α}

theorem feedStreams_delay (timed : snapshot.Timed good) (known : replay.log.Good good)
    (time until' : Int) (total : Nat) (streams : List Stream) :
    let played := replay.feedStreams snapshot until' total streams
    let played' := (replay.delay time).feedStreams (snapshot.delay time) (until' + time) total streams
    played.snapshot.Timed good ∧ played.replay.log = replay.log ∧
      played'.replay = played.replay.delay time ∧
      played'.snapshot = played.snapshot.delay time ∧ Alike Eq played.count played'.count := by
  induction streams generalizing replay snapshot total with
  | nil => exact ⟨timed, rfl, rfl, rfl, rfl⟩
  | cons stream rest ih =>
      have fits : ∀ value ∈ replay.pending stream, good stream value := by
        intro value member
        exact known stream value (List.mem_of_mem_drop member)
      obtain ⟨next, moved, counts⟩ := feedRecords_delay timed time stream until' 0 fits
      simp only [feedStreams, pending_delay]
      rcases counts.cases_on with
        ⟨_, _, failed, failed', same⟩ | ⟨count, _, counted, counted', rfl⟩
      · rw [failed, failed']
        exact ⟨next, rfl, rfl, moved, same⟩
      · simp only [counted, counted', moved]
        let on : Replay α :=
          { replay with cursors := replay.cursors.set stream (replay.cursors.get stream + count) }
        have onKnown : on.log.Good good := known
        exact ih next onKnown (total + count)

theorem feedUntil_delay (timed : snapshot.Timed good) (known : replay.log.Good good)
    (time until' : Int) :
    let played := replay.feedUntil snapshot until'
    let played' := (replay.delay time).feedUntil (snapshot.delay time) (until' + time)
    played.snapshot.Timed good ∧ played.replay.log = replay.log ∧
      played'.replay = played.replay.delay time ∧
      played'.snapshot = played.snapshot.delay time ∧ Alike Eq played.count played'.count :=
  feedStreams_delay timed known time until' 0 Stream.all

end Replay

end ManeuverRanking
