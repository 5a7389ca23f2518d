import ManeuverRanking.Proofs.Replay.Feeding

/-!
Schedules of a replay: feeds and clock advances in any order. Behind an advance the snapshot depends
only on the clock and on the latest feed time, not on how the schedule got there.
-/

namespace ManeuverRanking

inductive PlayStep where
  | feed (time : Int)
  | advance (step : Int)

namespace PlayStep

def feedTime? : PlayStep → Option Int
  | feed time => some time
  | advance _ => none

def clockStep : PlayStep → Int
  | feed _ => 0
  | advance step => step

def elapsed : List PlayStep → Int
  | [] => 0
  | step :: rest => step.clockStep + elapsed rest

def Forward (steps : List PlayStep) : Prop :=
  ∀ step, advance step ∈ steps → 0 ≤ step

def latestFeed (steps : List PlayStep) : Option Int :=
  (steps.filterMap feedTime?).max?

def EndsInAdvance (steps : List PlayStep) : Prop :=
  ∃ before step, steps = before ++ [advance step]

def reaches (steps : List PlayStep) (stamp : Int) : Bool :=
  (latestFeed steps).any fun latest => decide (stamp ≤ latest)

theorem reaches_eq_any (steps : List PlayStep) (stamp : Int) :
    reaches steps stamp = (steps.filterMap feedTime?).any fun time => decide (stamp ≤ time) := by
  unfold reaches latestFeed
  generalize steps.filterMap feedTime? = times
  cases largest : times.max? with
  | none => simp [List.max?_eq_none_iff.mp largest]
  | some latest =>
      obtain ⟨member, above⟩ := List.max?_eq_some_iff.mp largest
      rw [Option.any_some, Bool.eq_iff_iff, decide_eq_true_iff, List.any_eq_true]
      constructor
      · intro due
        exact ⟨latest, member, by simpa using due⟩
      · rintro ⟨time, fed, due⟩
        have bound := above time fed
        simp only [decide_eq_true_eq] at due
        omega

theorem reaches_cons_feed (time : Int) (rest : List PlayStep) (stamp : Int) :
    reaches (feed time :: rest) stamp = (decide (stamp ≤ time) || reaches rest stamp) := by
  simp [reaches_eq_any, feedTime?]

theorem reaches_cons_advance (step : Int) (rest : List PlayStep) (stamp : Int) :
    reaches (advance step :: rest) stamp = reaches rest stamp := by
  simp [reaches_eq_any, feedTime?]

end PlayStep

@[ext] structure Player (α : Type) where
  replay : Replay α
  snapshot : Snapshot α

namespace Player

variable {α : Type}

def take (player : Player α) : PlayStep → Player α × List (Except (Fault α) Nat)
  | .feed time =>
      let progress := player.replay.feedUntil player.snapshot time
      (⟨progress.replay, progress.snapshot⟩, [progress.count])
  | .advance step => ({ player with snapshot := player.snapshot.advance step }, [])

def takeAll (player : Player α) : List PlayStep → Player α × List (Except (Fault α) Nat)
  | [] => (player, [])
  | step :: rest =>
      let (next, counts) := player.take step
      let (last, later) := next.takeAll rest
      (last, counts ++ later)

variable {keys : StampKeys α} {log : DriveLog α} {span : Nat} {reached : Stream → Int → Bool}

theorem takeAll_playing (player : Player α)
    (playing : Replay.Playing keys log span reached player.replay player.snapshot)
    (ordered : log.Ordered keys) (steps : List PlayStep) (forward : PlayStep.Forward steps) :
    let played := player.takeAll steps
    ∃ counts : List Nat, played.2 = counts.map .ok ∧
      played.1.replay.played = player.replay.played + totalCount counts ∧
      Replay.Playing keys log span
        (fun stream stamp => reached stream stamp || PlayStep.reaches steps stamp)
        played.1.replay played.1.snapshot := by
  -- On the steps; what was reached before them takes part, so it must stay general.
  induction steps generalizing reached player with
  | nil =>
      refine ⟨[], rfl, rfl, ?_⟩
      simpa [PlayStep.reaches, PlayStep.latestFeed, takeAll] using playing
  | cons step rest ih =>
      have later : PlayStep.Forward rest := fun step member =>
        forward step (List.mem_cons_of_mem _ member)
      cases step with
      | feed time =>
          obtain ⟨count, counted, played, fed⟩ := playing.feedUntil ordered time
          obtain ⟨counts, all, total, last⟩ := ih (player.take (.feed time)).1 fed later
          refine ⟨count :: counts, ?_, ?_, ?_⟩
          · simp only [takeAll, all, List.map_cons]
            simp only [take, counted, List.singleton_append]
          · simp only [takeAll, total]
            simp only [take, played, totalCount, Nat.add_assoc]
          · simp only [PlayStep.reaches_cons_feed, ← Bool.or_assoc]
            exact last
      | advance step =>
          have advanced := playing.advance step (forward step List.mem_cons_self)
          obtain ⟨counts, all, total, last⟩ := ih (player.take (.advance step)).1 advanced later
          refine ⟨counts, ?_, ?_, ?_⟩
          · simp only [takeAll, all]
            simp only [take, List.nil_append]
          · exact total
          · simp only [PlayStep.reaches_cons_advance]
            exact last

theorem takeAll_append (player : Player α) (first second : List PlayStep) :
    (player.takeAll (first ++ second)).1 = ((player.takeAll first).1.takeAll second).1 := by
  induction first generalizing player with
  | nil => rfl
  | cons step rest ih => exact ih _

theorem takeAll_advance_toList (player : Player α)
    (playing : Replay.Playing keys log span reached player.replay player.snapshot)
    (ordered : log.Ordered keys) {steps : List PlayStep} (forward : PlayStep.Forward steps)
    (ends : PlayStep.EndsInAdvance steps) (stream : Stream) :
    let played := (player.takeAll steps).1
    (played.snapshot.window stream).toList = (log.stamped keys stream).filter fun record =>
      decide (played.snapshot.clock ≤ record.stamp) &&
        (reached stream record.stamp || PlayStep.reaches steps record.stamp) := by
  intro played
  obtain ⟨counts, -, -, last⟩ := takeAll_playing player playing ordered steps forward
  apply (last.holds stream).toList_eq
  obtain ⟨before, step, rfl⟩ := ends
  intro record member
  obtain ⟨earlier, -, -, previous⟩ := takeAll_playing player playing ordered before
    fun step member => forward step (List.mem_append_left _ member)
  rw [takeAll_append] at member ⊢
  simp only [takeAll, take, Snapshot.window_advance] at member ⊢
  rw [(previous.holds stream).inOrder.evict_toList] at member
  simpa using (List.mem_filter.mp member).2

theorem takeAll_clock (player : Player α) (steps : List PlayStep) :
    (player.takeAll steps).1.snapshot.clock =
      player.snapshot.clock + PlayStep.elapsed steps := by
  induction steps generalizing player with
  | nil => simp [takeAll, PlayStep.elapsed]
  | cons step rest ih =>
      rw [takeAll, ih, PlayStep.elapsed, ← Int.add_assoc]
      cases step with
      | feed time => simp [take, PlayStep.clockStep, Replay.feedUntil_clock]
      | advance step => simp [take, PlayStep.clockStep]

def start (log : DriveLog α) (fresh : Snapshot α) : Player α :=
  ⟨.ofLog log, fresh⟩

theorem start_playing {clock width : Int} {fresh : Snapshot α} (log : DriveLog α)
    (created : Snapshot.create keys clock width = .ok fresh) :
    Replay.Playing keys log width.toNat (fun _ _ => false) (start log fresh).replay
      (start log fresh).snapshot := by
  obtain ⟨-, rfl⟩ := (Snapshot.create_eq_ok_iff ..).mp created
  exact Replay.Playing.start keys log clock width.toNat

/-- A schedule from a fresh snapshot plays every record up to its latest feed. Behind an advance the
windows hold what was played from the clock on, so another schedule with the same clock and the same
latest feed leaves the same player. -/
theorem start_takeAll_eq_latestFeed (ordered : log.Ordered keys) {clock width : Int}
    {fresh : Snapshot α} (created : Snapshot.create keys clock width = .ok fresh)
    (steps : List PlayStep) (forward : PlayStep.Forward steps) :
    let played := (start log fresh).takeAll steps
    (∃ counts : List Nat, played.2 = counts.map .ok ∧
      totalCount counts = totalCount (Stream.all.map fun stream =>
        (log.stamped keys stream).countP fun record => PlayStep.reaches steps record.stamp)) ∧
    played.1.snapshot.clock = clock + PlayStep.elapsed steps ∧
    (PlayStep.EndsInAdvance steps →
      (∀ stream, (played.1.snapshot.window stream).toList =
        (log.stamped keys stream).filter fun record =>
          decide (played.1.snapshot.clock ≤ record.stamp) &&
            PlayStep.reaches steps record.stamp) ∧
      ∀ (otherClock : Int) (otherFresh : Snapshot α) (others : List PlayStep),
        Snapshot.create keys otherClock width = .ok otherFresh →
        PlayStep.Forward others → PlayStep.EndsInAdvance others →
        ((start log otherFresh).takeAll others).1.snapshot.clock = played.1.snapshot.clock →
        PlayStep.latestFeed others = PlayStep.latestFeed steps →
        ((start log otherFresh).takeAll others).1 = played.1) := by
  intro played
  have starting := start_playing log created
  obtain ⟨counts, all, total, playing⟩ := takeAll_playing _ starting ordered steps forward
  have records := takeAll_advance_toList _ starting ordered forward
  simp only [Bool.false_or] at playing records
  refine ⟨⟨counts, all, ?_⟩, ?_, fun ends => ⟨records ends, ?_⟩⟩
  · rw [playing.played_eq] at total
    rw [total]
    simp [start, Replay.played, totalCount, Replay.ofLog, PerStream.toList, Stream.all]
  · obtain ⟨-, rfl⟩ := (Snapshot.create_eq_ok_iff ..).mp created
    exact takeAll_clock _ steps
  · intro otherClock otherFresh others otherCreated otherForward otherEnds clocks feeds
    have otherStart := start_playing log otherCreated
    obtain ⟨-, -, -, otherPlaying⟩ := takeAll_playing _ otherStart ordered others otherForward
    have otherRecords := takeAll_advance_toList _ otherStart ordered otherForward otherEnds
    -- With the same latest feed the same records were played, in whatever order the steps came.
    have reaches : PlayStep.reaches others = PlayStep.reaches steps := by
      funext stamp
      rw [PlayStep.reaches, PlayStep.reaches, feeds]
    simp only [Bool.false_or, reaches, clocks] at otherPlaying otherRecords
    obtain ⟨replays, snapshots⟩ := otherPlaying.eq_of_toList playing clocks fun stream =>
      (otherRecords stream).trans (records ends stream).symm
    exact Player.ext replays snapshots

def unevenDrive : DriveLog Float where
  name := "uneven"
  records := { PerStream.ofFn (fun _ => []) with
    odometry := [10, 20, 20, 30].map fun stamp =>
      ⟨stamp, ⟨⟨0.0, 0.0, 0.0⟩, ⟨1.0, 0.0, 0.0, 0.0⟩⟩, []⟩
    acceleration := [5, 25].map fun stamp => ⟨stamp, 0.0, 0.0⟩ }

theorem unevenDrive_ordered : unevenDrive.Ordered recordStamp := by
  constructor
  · intro stream value member
    cases stream <;> simp [unevenDrive, PerStream.get, PerStream.ofFn] at member
    all_goals exact ⟨_, rfl⟩
  · intro stream
    cases stream <;>
      simp [DriveLog.stamped, stampAll, unevenDrive, PerStream.get, PerStream.ofFn, recordStamp]

def unevenSchedule : List PlayStep :=
  [.feed 10, .advance 22, .feed 25, .feed 12, .advance 3]

def emptySnapshot : Snapshot Float :=
  ⟨0, .ofFn fun stream => Window.empty (recordStamp stream) 40⟩

theorem unevenSchedule_latestFeed :
    let played := (start unevenDrive emptySnapshot).takeAll unevenSchedule
    ((played.1.snapshot.window .acceleration).toList.map Stamped.stamp = [25]) ∧
    played.1 = ((start unevenDrive emptySnapshot).takeAll [.feed 25, .advance 25]).1 := by
  intro played
  have created : Snapshot.create recordStamp 0 40 = .ok emptySnapshot := rfl
  have forward : PlayStep.Forward unevenSchedule := by simp [PlayStep.Forward, unevenSchedule]
  have ends : PlayStep.EndsInAdvance unevenSchedule :=
    ⟨[.feed 10, .advance 22, .feed 25, .feed 12], 3, rfl⟩
  obtain ⟨-, clock, rest⟩ :=
    start_takeAll_eq_latestFeed unevenDrive_ordered created unevenSchedule forward
  obtain ⟨records, unique⟩ := rest ends
  have arrived : played.1.snapshot.clock = 25 := clock
  constructor
  · rw [records .acceleration, arrived]
    rfl
  · apply (unique 0 emptySnapshot [.feed 25, .advance 25] created ?_ ⟨[.feed 25], 25, rfl⟩ ?_ rfl).symm
    · simp [PlayStep.Forward]
    · rw [takeAll_clock, arrived]
      rfl

end Player

end ManeuverRanking
