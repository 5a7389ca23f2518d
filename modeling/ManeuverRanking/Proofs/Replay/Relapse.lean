import ManeuverRanking.Proofs.Replay.Play
import ManeuverRanking.Proofs.Replay.Schedule

/-!
Replay that goes on behind failing feeds. A feed that fails in a stream has appended what stands
before the failing record, yet it leaves the cursor where it was, and the next feed appends the same
records again. All other records are appended once and in order.
-/

namespace ManeuverRanking

variable {α β : Type}

structure Placement (β : Type) where
  records : List β
  failed : Bool

namespace Placement

def placed (placements : List (Placement β)) : List β :=
  placements.flatMap records

/-- What was put into the window by steps that failed. -/
def lapsed (placements : List (Placement β)) : List β :=
  placed (placements.filter failed)

def settled (placements : List (Placement β)) : List β :=
  placed (placements.filter fun placement => !placement.failed)

theorem placed_perm (placements : List (Placement β)) :
    (placed placements).Perm (settled placements ++ lapsed placements) := by
  rw [settled, lapsed, placed, placed, placed, ← List.flatMap_append]
  apply List.Perm.flatMap_right
  exact (List.perm_append_comm.trans (List.filter_append_perm failed placements)).symm

theorem placed_eq_settled {placements : List (Placement β)}
    (nothing : ∀ placement ∈ placements, placement.failed = true → placement.records = []) :
    placed placements = settled placements := by
  induction placements with
  | nil => rfl
  | cons first rest ih =>
      have later := ih fun placement member => nothing placement (List.mem_cons_of_mem _ member)
      have here := nothing first List.mem_cons_self
      simp only [placed, settled, List.flatMap_cons, List.filter_cons] at later ⊢
      cases failed : first.failed with
      | false => simp [later]
      | true => simp [later, here failed]

end Placement

namespace Player

def failsIn (player : Player α) (stream : Stream) : PlayStep → Bool
  | .feed time =>
      match (Replay.feedRecords player.snapshot stream time 0
        (player.replay.pending stream)).count with
      | .ok _ => false
      | .error _ => true
  | .advance _ => false

def placement (player : Player α) (stream : Stream) (step : PlayStep) :
    Placement (Payload α stream) where
  records := (((player.take step).1.snapshot.window stream).toList.drop
    (player.snapshot.window stream).size).map Stamped.value
  failed := player.failsIn stream step

def placements (player : Player α) (stream : Stream) :
    List PlayStep → List (Placement (Payload α stream))
  | [] => []
  | step :: rest => player.placement stream step :: (player.take step).1.placements stream rest

theorem failsIn_feed_eq (player : Player α) (stream : Stream) (time : Int) :
    player.failsIn stream (.feed time) =
      (player.replay.playOf player.snapshot time stream).fault?.isSome := by
  rw [failsIn, Replay.feedRecords_eq_play]
  unfold Replay.playOf Window.Played.total
  cases ((player.snapshot.window stream).play time (player.replay.pending stream)).fault? <;> rfl

theorem not_failsIn_of_ok {player : Player α} {time : Int} {count : Nat}
    (fed : (player.replay.feedUntil player.snapshot time).count = .ok count) (stream : Stream) :
    player.failsIn stream (.feed time) = false := by
  cases (Replay.fated_feedUntil player.replay player.snapshot time).fate stream stream.mem_all with
  | done unfailing => rw [failsIn_feed_eq, unfailing, Option.isSome_none]
  | failed fault _ told => cases told.symm.trans fed
  | untouched fault told => cases told.symm.trans fed

structure Sound (log : DriveLog α) (player : Player α) : Prop where
  sameLog : player.replay.log = log
  inOrder : ∀ stream, (player.snapshot.window stream).InOrder
  inside : ∀ stream, player.replay.cursors.get stream ≤ (log.records.get stream).length

structure Moves (log : DriveLog α) (player : Player α) (step : PlayStep) (stream : Stream) :
    Prop where
  inOrder : ((player.take step).1.snapshot.window stream).InOrder
  inside : (player.take step).1.replay.cursors.get stream ≤ (log.records.get stream).length
  cursor : (log.records.get stream).take ((player.take step).1.replay.cursors.get stream) =
    (log.records.get stream).take (player.replay.cursors.get stream) ++
      Placement.settled [player.placement stream step]

variable {log : DriveLog α} {player : Player α}

theorem settled_of_failed {stream : Stream} {step : PlayStep}
    (failed : player.failsIn stream step = true) :
    Placement.settled [player.placement stream step] = [] := by
  simp [Placement.settled, Placement.placed, placement, failed]

theorem settled_of_empty {stream : Stream} {step : PlayStep}
    (nothing : (player.placement stream step).records = []) :
    Placement.settled [player.placement stream step] = [] := by
  cases failed : (player.placement stream step).failed <;>
    simp [Placement.settled, Placement.placed, failed, nothing]

theorem placement_of_toList {stream : Stream} {step : PlayStep}
    {records : List (Stamped (Payload α stream))}
    (behind : ((player.take step).1.snapshot.window stream).toList =
      (player.snapshot.window stream).toList ++ records) :
    (player.placement stream step).records = records.map Stamped.value := by
  have size : (player.snapshot.window stream).size =
      (player.snapshot.window stream).toList.length := by
    simp [Window.size, Window.toList]
  rw [placement, behind, size, List.drop_left]

theorem Sound.moves_feed (sound : player.Sound log) (time : Int) (stream : Stream) :
    Moves log player (.feed time) stream := by
  have inOrder := sound.inOrder stream
  obtain ⟨played, -, bound, records, behind, values⟩ :=
    inOrder.play time (player.replay.pending stream)
  -- Only a feed that fails in this very stream puts records into the window and leaves the cursor.
  cases (Replay.fated_feedUntil player.replay player.snapshot time).fate stream stream.mem_all with
  | done unfailing window cursor =>
      have after : (player.take (.feed time)).1.snapshot.window stream =
          (player.replay.playOf player.snapshot time stream).window := window
      have moved : (player.take (.feed time)).1.replay.cursors.get stream =
          player.replay.cursors.get stream +
            (player.replay.playOf player.snapshot time stream).count := cursor
      have placed : (player.placement stream (.feed time)).records =
          (player.replay.pending stream).take
            (player.replay.playOf player.snapshot time stream).count := by
        refine Eq.trans (placement_of_toList ?_) values
        rw [after]
        exact behind
      have kept : player.failsIn stream (.feed time) = false := by
        rw [failsIn_feed_eq, unfailing, Option.isSome_none]
      have pending : player.replay.pending stream =
          (log.records.get stream).drop (player.replay.cursors.get stream) := by
        rw [Replay.pending, sound.sameLog]
      have rest : (player.replay.playOf player.snapshot time stream).count ≤
          (player.replay.pending stream).length := bound
      constructor
      · rw [after]
        exact played
      · have inside := sound.inside stream
        rw [pending, List.length_drop] at rest
        rw [moved]
        omega
      · rw [moved, List.take_add, ← pending, ← placed]
        simp [Placement.settled, Placement.placed, placement, kept]
  | failed fault failing told window cursor =>
      have after : (player.take (.feed time)).1.snapshot.window stream =
          (player.replay.playOf player.snapshot time stream).window := window
      have stays : (player.take (.feed time)).1.replay.cursors.get stream =
          player.replay.cursors.get stream := cursor
      have failed : player.failsIn stream (.feed time) = true := by
        rw [failsIn_feed_eq, failing, Option.isSome_some]
      constructor
      · rw [after]
        exact played
      · rw [stays]
        exact sound.inside stream
      · rw [stays, settled_of_failed failed, List.append_nil]
  | untouched fault told window cursor =>
      have after : (player.take (.feed time)).1.snapshot.window stream =
          player.snapshot.window stream := window
      have stays : (player.take (.feed time)).1.replay.cursors.get stream =
          player.replay.cursors.get stream := cursor
      have nothing : (player.placement stream (.feed time)).records = [] :=
        placement_of_toList (by rw [after, List.append_nil])
      constructor
      · rw [after]
        exact inOrder
      · rw [stays]
        exact sound.inside stream
      · rw [stays, settled_of_empty nothing, List.append_nil]

theorem Sound.moves_advance (sound : player.Sound log) (step : Int) (stream : Stream) :
    Moves log player (.advance step) stream := by
  have after : (player.take (.advance step)).1.snapshot.window stream =
      ((player.snapshot.window stream).evict (player.snapshot.clock + step)).1 :=
    Snapshot.window_advance ..
  have inOrder := sound.inOrder stream
  have nothing : (player.placement stream (.advance step)).records = [] := by
    rw [placement, after, inOrder.evict_toList, List.map_eq_nil_iff, List.drop_eq_nil_iff]
    exact List.length_filter_le _ _
  constructor
  · rw [after]
    exact inOrder.evict_inOrder _
  · exact sound.inside stream
  · rw [settled_of_empty nothing, List.append_nil]
    rfl

theorem Sound.moves (sound : player.Sound log) (step : PlayStep) (stream : Stream) :
    Moves log player step stream := by
  cases step with
  | feed time => exact sound.moves_feed time stream
  | advance step => exact sound.moves_advance step stream

theorem Sound.take (sound : player.Sound log) (step : PlayStep) :
    (player.take step).1.Sound log where
  sameLog := by
    cases step with
    | feed time =>
        exact (Replay.fated_feedUntil player.replay player.snapshot time).sameLog.trans sound.sameLog
    | advance step => exact sound.sameLog
  inOrder := fun stream => (sound.moves step stream).inOrder
  inside := fun stream => (sound.moves step stream).inside

theorem Sound.takeAll (sound : player.Sound log) (steps : List PlayStep) (stream : Stream) :
    (player.takeAll steps).1.replay.cursors.get stream ≤ (log.records.get stream).length ∧
      (log.records.get stream).take ((player.takeAll steps).1.replay.cursors.get stream) =
        (log.records.get stream).take (player.replay.cursors.get stream) ++
          Placement.settled (player.placements stream steps) := by
  induction steps generalizing player with
  | nil => exact ⟨sound.inside stream, (List.append_nil _).symm⟩
  | cons step rest ih =>
      obtain ⟨inside, later⟩ := ih (sound.take step)
      refine ⟨inside, ?_⟩
      rw [Player.takeAll, later, (sound.moves step stream).cursor, List.append_assoc]
      congr 1
      cases failed : (player.placement stream step).failed <;>
        simp [placements, Placement.settled, Placement.placed, failed]

theorem not_failed_of_ok (steps : List PlayStep) (stream : Stream)
    (unfailing : ∀ outcome ∈ (player.takeAll steps).2, ∃ count, outcome = .ok count) :
    ∀ placement ∈ player.placements stream steps, placement.failed = false := by
  induction steps generalizing player with
  | nil => nofun
  | cons step rest ih =>
      intro placement member
      rcases List.mem_cons.mp member with rfl | later
      · cases step with
        | feed time =>
            obtain ⟨count, fed⟩ := unfailing _ (List.mem_append_left _ List.mem_cons_self)
            exact not_failsIn_of_ok fed stream
        | advance step => rfl
      · exact ih (fun outcome told => unfailing outcome (List.mem_append_right _ told)) _ later

theorem start_sound {keys : StampKeys α} {clock width : Int} {fresh : Snapshot α}
    (log : DriveLog α) (created : Snapshot.create keys clock width = .ok fresh) :
    (start log fresh).Sound log := by
  obtain ⟨-, rfl⟩ := (Snapshot.create_eq_ok_iff ..).mp created
  constructor
  · rfl
  · intro stream
    simp only [start, Snapshot.window, PerStream.get_ofFn]
    exact Window.empty_inOrder ..
  · intro stream
    simp [start, Replay.ofLog]

/-- The records that were appended to a stream, whatever failed on the way, are those before its
cursor and once more those that feeds had appended before they failed in the stream. Where these had
appended nothing, and so where no feed fails, each record before the cursor was appended once. -/
theorem placed_perm_take_cursor {keys : StampKeys α} {clock width : Int} {fresh : Snapshot α}
    (log : DriveLog α) (created : Snapshot.create keys clock width = .ok fresh)
    (steps : List PlayStep) (stream : Stream) :
    let played := (start log fresh).takeAll steps
    let cursor := played.1.replay.cursors.get stream
    let history := (start log fresh).placements stream steps
    cursor ≤ (log.records.get stream).length ∧
    (Placement.placed history).Perm
      ((log.records.get stream).take cursor ++ Placement.lapsed history) ∧
    (Placement.lapsed history = [] →
      Placement.placed history = (log.records.get stream).take cursor) ∧
    ((∀ outcome ∈ played.2, ∃ count, outcome = .ok count) → Placement.lapsed history = []) := by
  intro played cursor history
  obtain ⟨inside, settled⟩ := (start_sound log created).takeAll steps stream
  have zero : (start log fresh).replay.cursors.get stream = 0 := PerStream.get_ofFn ..
  rw [zero, List.take_zero, List.nil_append] at settled
  refine ⟨inside, ?_, ?_, ?_⟩
  · rw [settled]
    exact Placement.placed_perm history
  · intro nothing
    rw [settled]
    apply Placement.placed_eq_settled
    intro placement member failed
    exact List.flatMap_eq_nil_iff.mp nothing placement (List.mem_filter.mpr ⟨member, failed⟩)
  · intro unfailing
    have kept := not_failed_of_ok steps stream unfailing
    rw [Placement.lapsed, List.filter_eq_nil_iff.mpr]
    · rfl
    · intro placement member
      simp [kept placement member]

def backwardDrive : DriveLog Float where
  name := "backward"
  records := { PerStream.ofFn (fun _ => []) with
    odometry := [10, 5].map fun stamp =>
      ⟨stamp, ⟨⟨0.0, 0.0, 0.0⟩, ⟨1.0, 0.0, 0.0, 0.0⟩⟩, []⟩ }

theorem backwardDrive_lapses :
    let history := (start backwardDrive emptySnapshot).placements .odometry [.feed 10, .feed 10]
    (Placement.lapsed history).map Odometry.stamp = [10, 10] ∧
      ((Placement.placed history).map Odometry.stamp).Perm [10, 10] := by
  intro history
  have created : Snapshot.create recordStamp 0 40 = .ok emptySnapshot := rfl
  have lapses : (Placement.lapsed history).map Odometry.stamp = [10, 10] := rfl
  obtain ⟨-, same, -⟩ :=
    placed_perm_take_cursor backwardDrive created [.feed 10, .feed 10] .odometry
  have cursor : ((start backwardDrive emptySnapshot).takeAll
      [.feed 10, .feed 10]).1.replay.cursors.get .odometry = 0 := rfl
  rw [cursor] at same
  refine ⟨lapses, ?_⟩
  rw [← lapses]
  exact same.map Odometry.stamp

/-- The first odometry of the drive is appended twice, and its cursor tells of none. -/
theorem backwardDrive_appended_twice :
    let drive := start backwardDrive emptySnapshot
    backwardDrive.records.odometry.map Odometry.stamp = [10, 5] ∧
    (Placement.placed (drive.placements .odometry [.feed 10])).map Odometry.stamp = [10] ∧
    (drive.takeAll [.feed 10]).1.replay.cursors.get .odometry = 0 ∧
    (Placement.placed (drive.placements .odometry [.feed 10, .feed 10])).map Odometry.stamp =
      [10, 10] :=
  ⟨rfl, rfl, rfl, rfl⟩

end Player

end ManeuverRanking
