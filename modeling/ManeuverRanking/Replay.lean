import ManeuverRanking.Snapshot

/-!
Replay of a drive into a snapshot, stream by stream up to a playback time. Each stream has a cursor:
the number of its records that have been played.
-/

namespace ManeuverRanking

structure Replay (α : Type) where
  log : DriveLog α
  cursors : PerStream fun _ => Nat

structure Fed (α : Type) where
  snapshot : Snapshot α
  count : Except (Fault α) Nat

namespace Replay

variable {α : Type}

def ofLog (log : DriveLog α) : Replay α :=
  ⟨log, .ofFn fun _ => 0⟩

def pending (replay : Replay α) (stream : Stream) : List (Payload α stream) :=
  (replay.log.records.get stream).drop (replay.cursors.get stream)

def isExhausted (replay : Replay α) : Bool :=
  Stream.all.all fun stream =>
    decide ((replay.log.records.get stream).length ≤ replay.cursors.get stream)

def feedRecords (snapshot : Snapshot α) (stream : Stream) (time : Int) (fed : Nat) :
    List (Payload α stream) → Fed α
  | [] => ⟨snapshot, .ok fed⟩
  | record :: rest =>
      match (snapshot.window stream).key record with
      | .error fault => ⟨snapshot, .error fault⟩
      | .ok stamp =>
          if stamp ≤ time then
            match snapshot.append stream record with
            | .error fault => ⟨snapshot, .error fault⟩
            | .ok (snapshot, _) => feedRecords snapshot stream time (fed + 1) rest
          else ⟨snapshot, .ok fed⟩

theorem feedRecords_clock (snapshot : Snapshot α) (stream : Stream) (time : Int) (fed : Nat)
    (records : List (Payload α stream)) :
    (feedRecords snapshot stream time fed records).snapshot.clock = snapshot.clock := by
  induction records generalizing snapshot fed with
  | nil => rfl
  | cons record rest ih =>
      rw [feedRecords]
      split
      · rfl
      · split
        · split
          · rfl
          · rename_i appended
            rw [ih]
            exact Snapshot.append_clock appended
        · rfl

structure Progress (α : Type) where
  replay : Replay α
  snapshot : Snapshot α
  count : Except (Fault α) Nat

/-- Feeds the listed streams in order. A stream that fails keeps its cursor and stops the feed. -/
def feedStreams (replay : Replay α) (snapshot : Snapshot α) (time : Int) (total : Nat) :
    List Stream → Progress α
  | [] => ⟨replay, snapshot, .ok total⟩
  | stream :: rest =>
      let fed := feedRecords snapshot stream time 0 (replay.pending stream)
      match fed.count with
      | .error fault => ⟨replay, fed.snapshot, .error fault⟩
      | .ok count =>
          let cursor := replay.cursors.get stream + count
          feedStreams { replay with cursors := replay.cursors.set stream cursor } fed.snapshot time
            (total + count) rest

theorem feedStreams_clock (replay : Replay α) (snapshot : Snapshot α) (time : Int) (total : Nat)
    (streams : List Stream) :
    (replay.feedStreams snapshot time total streams).snapshot.clock = snapshot.clock := by
  induction streams generalizing replay snapshot total with
  | nil => rfl
  | cons stream rest ih =>
      rw [feedStreams]
      split
      · exact feedRecords_clock ..
      · rw [ih]
        exact feedRecords_clock ..

def feedUntil (replay : Replay α) (snapshot : Snapshot α) (time : Int) : Progress α :=
  replay.feedStreams snapshot time 0 Stream.all

theorem feedUntil_clock (replay : Replay α) (snapshot : Snapshot α) (time : Int) :
    (replay.feedUntil snapshot time).snapshot.clock = snapshot.clock :=
  feedStreams_clock ..

end Replay

end ManeuverRanking
