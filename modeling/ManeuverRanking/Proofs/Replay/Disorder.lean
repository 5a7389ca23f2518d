import ManeuverRanking.Proofs.Replay.Play
import ManeuverRanking.Proofs.Replay.Schedule

/-!
Replay of a drive whose streams may be out of order. A window only knows the newest record it still
holds, but a record older than the one before it is due together with that one, so both are taken by
the same feed and no eviction comes between them.
-/

namespace ManeuverRanking

variable {α β : Type}

def descentFrom? : Option (Stamped β) → List (Stamped β) → Option (Stamped β × Stamped β)
  | _, [] => none
  | none, record :: rest => descentFrom? (some record) rest
  | some newest, record :: rest =>
      if record.stamp < newest.stamp then some (newest, record) else descentFrom? (some record) rest

theorem descentFrom?_cons_of_lt {newest record : Stamped β} (older : record.stamp < newest.stamp)
    (rest : List (Stamped β)) :
    descentFrom? (some newest) (record :: rest) = some (newest, record) := by
  rw [descentFrom?, if_pos older]

theorem descentFrom?_cons_of_le {newest? : Option (Stamped β)} {record : Stamped β}
    (follows : ∀ newest ∈ newest?, newest.stamp ≤ record.stamp) (rest : List (Stamped β)) :
    descentFrom? newest? (record :: rest) = descentFrom? (some record) rest := by
  cases newest? with
  | none => rfl
  | some newest => rw [descentFrom?, if_neg (Int.not_lt.mpr (follows newest rfl))]

theorem follows_or_exists_older (newest? : Option (Stamped β)) (record : Stamped β) :
    (∀ newest ∈ newest?, newest.stamp ≤ record.stamp) ∨
      ∃ newest, newest? = some newest ∧ record.stamp < newest.stamp := by
  cases newest? with
  | none => exact .inl nofun
  | some newest =>
      by_cases older : record.stamp < newest.stamp
      · exact .inr ⟨newest, rfl, older⟩
      · refine .inl fun other same => ?_
        cases same
        omega

theorem descentFrom?_none {newest? : Option (Stamped β)} {records : List (Stamped β)}
    (onward : ∀ newest ∈ newest?, ∀ next ∈ records.head?, newest.stamp ≤ next.stamp) :
    descentFrom? newest? records = descentFrom? none records := by
  cases records with
  | nil => simp only [descentFrom?]
  | cons record rest =>
      exact descentFrom?_cons_of_le (fun newest member => onward newest member record rfl) rest

theorem descentFrom?_spec {newest? : Option (Stamped β)} {records : List (Stamped β)}
    {earlier later : Stamped β} (found : descentFrom? newest? records = some (earlier, later)) :
    later.stamp < earlier.stamp ∧ ∃ position : Nat,
      (newest?.toList ++ records)[position]? = some earlier ∧
      (newest?.toList ++ records)[position + 1]? = some later := by
  induction records generalizing newest? with
  | nil => simp [descentFrom?] at found
  | cons record rest ih =>
      rcases follows_or_exists_older newest? record with follows | ⟨newest, rfl, older⟩
      · rw [descentFrom?_cons_of_le follows] at found
        obtain ⟨older, position, here, next⟩ := ih found
        cases newest? with
        | none => exact ⟨older, position, here, next⟩
        | some newest => exact ⟨older, position + 1, here, next⟩
      · rw [descentFrom?_cons_of_lt older] at found
        cases found
        exact ⟨older, 0, rfl, rfl⟩

theorem isSome_descentFrom? {newest? : Option (Stamped β)} {records : List (Stamped β)}
    {position : Nat} {earlier later : Stamped β}
    (here : (newest?.toList ++ records)[position]? = some earlier)
    (next : (newest?.toList ++ records)[position + 1]? = some later)
    (older : later.stamp < earlier.stamp) : (descentFrom? newest? records).isSome = true := by
  induction records generalizing newest? position with
  | nil => cases newest? <;> simp at next
  | cons record rest ih =>
      rcases follows_or_exists_older newest? record with follows | ⟨newest, rfl, descends⟩
      · rw [descentFrom?_cons_of_le follows]
        cases newest? with
        | none => exact ih here next
        | some newest =>
            cases position with
            | zero =>
                have bound := follows newest rfl
                cases here
                cases next
                omega
            | succ position => exact ih here next
      · rw [descentFrom?_cons_of_lt descends]
        rfl

section Due

def dueAt (time : Int) (records : List (Stamped β)) : List (Stamped β) :=
  records.takeWhile fun record => decide (record.stamp ≤ time)

theorem dueAt_cons (time : Int) (record : Stamped β) (rest : List (Stamped β)) :
    dueAt time (record :: rest) = if record.stamp ≤ time then record :: dueAt time rest else [] := by
  unfold dueAt
  by_cases due : record.stamp ≤ time <;> simp [due]

theorem dueAt_eq_take (time : Int) (records : List (Stamped β)) :
    dueAt time records = records.take (dueAt time records).length :=
  List.prefix_iff_eq_take.mp (List.takeWhile_prefix _)

theorem le_of_mem_dueAt {time : Int} {records : List (Stamped β)} {record : Stamped β}
    (member : record ∈ dueAt time records) : record.stamp ≤ time := by
  simpa using List.all_eq_true.mp List.all_takeWhile record member

theorem lt_of_behind_dueAt {time : Int} {records : List (Stamped β)} {next : Stamped β}
    (behind : next ∈ (records.drop (dueAt time records).length).head?) : time < next.stamp := by
  induction records with
  | nil => simp at behind
  | cons record rest ih =>
      rw [dueAt_cons] at behind
      split at behind
      · exact ih behind
      · cases behind
        omega

end Due

namespace Window.InOrder

variable {window : Window α β} {time : Int} {records : List (Stamped β)}

theorem play_cons_of_follows (inOrder : window.InOrder) {record : Stamped β}
    (read : window.key record.value = .ok record.stamp) (due : record.stamp ≤ time)
    (follows : ∀ newest ∈ window.toList.getLast?, newest.stamp ≤ record.stamp) (rest : List β) :
    window.play time (record.value :: rest) =
      { (window.push record).play time rest with
        count := ((window.push record).play time rest).count + 1 } := by
  have appended : window.append record.value = .ok (window.push record, record) :=
    (inOrder.append_eq_ok_iff ..).mpr ⟨read, rfl, follows, rfl⟩
  simp only [Window.play, read, due, if_true, appended]

/-- A window that is fed stops at the first descent among its newest record and the records due. -/
theorem play_of_descends (inOrder : window.InOrder)
    (keyed : ∀ record ∈ records, window.key record.value = .ok record.stamp)
    {earlier later : Stamped β}
    (descends : descentFrom? window.toList.getLast? (dueAt time records) = some (earlier, later)) :
    (window.play time (records.map Stamped.value)).fault? =
      some (.outOfOrder later.stamp earlier.stamp) := by
  induction records generalizing window with
  | nil => simp [dueAt, descentFrom?] at descends
  | cons record rest ih =>
      have read := keyed record List.mem_cons_self
      rw [dueAt_cons] at descends
      split at descends
      · rename_i due
        rcases follows_or_exists_older window.toList.getLast? record with
          follows | ⟨newest, last, older⟩
        · rw [List.map_cons, inOrder.play_cons_of_follows read due follows]
          apply ih (inOrder.push_inOrder record read follows)
          · exact fun next member => keyed next (List.mem_cons_of_mem _ member)
          · rw [descentFrom?_cons_of_le follows] at descends
            rw [toList_push, List.getLast?_concat]
            exact descends
        · have refused : window.append record.value =
              .error (.outOfOrder record.stamp newest.stamp) :=
            (inOrder.append_eq_error_iff ..).mpr (.inr ⟨_, newest, read, last, older, rfl⟩)
          rw [last, descentFrom?_cons_of_lt older] at descends
          simp only [List.map_cons, Window.play, read, due, if_true, refused]
          cases descends
          rfl
      · simp [descentFrom?] at descends

theorem play_of_ascends (inOrder : window.InOrder)
    (keyed : ∀ record ∈ records, window.key record.value = .ok record.stamp)
    (ascends : descentFrom? window.toList.getLast? (dueAt time records) = none) :
    window.play time (records.map Stamped.value) =
      ⟨window.pushAll (dueAt time records), (dueAt time records).length, none⟩ := by
  induction records generalizing window with
  | nil => rfl
  | cons record rest ih =>
      have read := keyed record List.mem_cons_self
      rw [dueAt_cons] at ascends ⊢
      split at ascends
      · rename_i due
        rcases follows_or_exists_older window.toList.getLast? record with
          follows | ⟨newest, last, older⟩
        · rw [descentFrom?_cons_of_le follows] at ascends
          have later := ih (inOrder.push_inOrder record read follows)
            (fun next member => keyed next (List.mem_cons_of_mem _ member))
            (by rw [toList_push, List.getLast?_concat]; exact ascends)
          rw [List.map_cons, inOrder.play_cons_of_follows read due follows, later, if_pos due]
          rfl
        · rw [last, descentFrom?_cons_of_lt older] at ascends
          cases ascends
      · rename_i late
        simp only [List.map_cons, Window.play, read, late, if_false]
        rfl

end Window.InOrder

namespace DriveLog

def Readable (keys : StampKeys α) (log : DriveLog α) : Prop :=
  ∀ stream, ∀ value ∈ log.records.get stream, ∃ stamp, keys stream value = .ok stamp

theorem readable_recordStamp_iff (log : DriveLog α) :
    log.Readable recordStamp ↔ ∀ batch ∈ log.records.transforms, batch.transforms ≠ [] := by
  constructor
  · intro readable batch member none
    obtain ⟨stamp, read⟩ := readable .transforms batch member
    rw [recordStamp, TransformBatch.stamp, none] at read
    cases read
  · intro filled stream value member
    cases stream with
    | transforms =>
        obtain ⟨first, rest, listed⟩ := List.exists_cons_of_ne_nil (filled value member)
        exact ⟨first.stamp, by rw [recordStamp, TransformBatch.stamp, listed]⟩
    | _ => exact ⟨_, rfl⟩

def Regresses (keys : StampKeys α) (log : DriveLog α) (stream : Stream) (position : Nat) : Prop :=
  ∃ earlier later, (log.stamped keys stream)[position]? = some earlier ∧
    (log.stamped keys stream)[position + 1]? = some later ∧ later.stamp < earlier.stamp

end DriveLog

namespace Replay

/-- The window of a stream ends with the newest record played, if it holds any, and the record that
is next to be played is no older than that one. -/
structure Trails (all : List (Stamped β)) (cursor : Nat) (window : Window α β) : Prop where
  inOrder : window.InOrder
  newest : window.toList <:+ all.take cursor
  onward : ∀ last ∈ (all.take cursor).getLast?, ∀ next ∈ (all.drop cursor).head?,
    last.stamp ≤ next.stamp

namespace Trails

variable {all : List (Stamped β)} {cursor : Nat} {window : Window α β}

theorem start (all : List (Stamped β)) (key : β → Except (Fault α) Int) (span : Nat) :
    Trails all 0 (Window.empty key span) where
  inOrder := Window.empty_inOrder key span
  newest := List.nil_suffix
  onward := by simp

theorem evict (trails : Trails all cursor window) (now : Int) :
    Trails all cursor (window.evict now).1 where
  inOrder := trails.inOrder.evict_inOrder now
  newest := by
    rw [Window.evict, Window.evictWhere, Window.toList, toList_extract_from]
    exact (List.drop_suffix _ _).trans trails.newest
  onward := trails.onward

theorem descentFrom?_due (trails : Trails all cursor window) (time : Int) :
    descentFrom? window.toList.getLast? (dueAt time (all.drop cursor)) =
      descentFrom? none (dueAt time (all.drop cursor)) := by
  apply descentFrom?_none
  intro newest last next first
  obtain ⟨evicted, split⟩ := trails.newest
  apply trails.onward
  · rw [← split, List.getLast?_append, Option.mem_def.mp last]
    rfl
  · rw [dueAt_eq_take, List.head?_take] at first
    split at first
    · cases first
    · exact first

theorem feed (trails : Trails all cursor window)
    (keyed : ∀ record ∈ all, window.key record.value = .ok record.stamp) (time : Int)
    (ascends : descentFrom? none (dueAt time (all.drop cursor)) = none) :
    let played := window.play time ((all.drop cursor).map Stamped.value)
    played.fault? = none ∧ played.window.key = window.key ∧
      Trails all (cursor + played.count) played.window := by
  intro played
  let due := dueAt time (all.drop cursor)
  have split : all.take (cursor + due.length) = all.take cursor ++ due := by
    rw [List.take_add, ← dueAt_eq_take]
  have pending : ∀ record ∈ all.drop cursor, window.key record.value = .ok record.stamp :=
    fun record member => keyed record (List.mem_of_mem_drop member)
  have taken : played = ⟨window.pushAll due, due.length, none⟩ := by
    apply trails.inOrder.play_of_ascends pending
    rw [trails.descentFrom?_due, ascends]
  obtain ⟨inOrder, key, -⟩ := trails.inOrder.play time ((all.drop cursor).map Stamped.value)
  refine ⟨by rw [taken], key, inOrder, ?_, ?_⟩
  · obtain ⟨evicted, held⟩ := trails.newest
    rw [taken, Window.toList_pushAll, split, ← held, List.append_assoc]
    exact List.suffix_append evicted _
  · rw [taken, split, ← List.drop_drop]
    intro last final next first
    have late : time < next.stamp := lt_of_behind_dueAt first
    by_cases none : due = []
    · rw [none, List.append_nil] at final
      rw [none] at first
      exact trails.onward last final next first
    · rw [List.getLast?_append, List.getLast?_eq_some_getLast none, Option.some_or] at final
      cases final
      have early := le_of_mem_dueAt (List.getLast_mem none)
      omega

theorem getElem?_due {time : Int} {offset : Nat} {record : Stamped β}
    (found : (dueAt time (all.drop cursor))[offset]? = some record) :
    offset < (dueAt time (all.drop cursor)).length ∧ all[cursor + offset]? = some record := by
  obtain ⟨inside, -⟩ := List.getElem?_eq_some_iff.mp found
  refine ⟨inside, ?_⟩
  rw [dueAt_eq_take, List.getElem?_take_of_lt inside, List.getElem?_drop] at found
  exact found

theorem exists_position {time : Int} {earlier later : Stamped β}
    (descends : descentFrom? none (dueAt time (all.drop cursor)) = some (earlier, later)) :
    ∃ position, cursor ≤ position + 1 ∧
      position + 1 < cursor + (dueAt time (all.drop cursor)).length ∧
      all[position]? = some earlier ∧ all[position + 1]? = some later ∧
      later.stamp < earlier.stamp := by
  obtain ⟨older, offset, here, next⟩ := descentFrom?_spec descends
  obtain ⟨-, here⟩ := getElem?_due here
  obtain ⟨inside, next⟩ := getElem?_due next
  exact ⟨cursor + offset, by omega, by omega, here, next, older⟩

theorem isSome_descent (trails : Trails all cursor window) {time : Int} {position : Nat}
    {earlier later : Stamped β} (behind : cursor ≤ position + 1)
    (due : position + 1 < cursor + (dueAt time (all.drop cursor)).length)
    (here : all[position]? = some earlier) (next : all[position + 1]? = some later)
    (older : later.stamp < earlier.stamp) :
    (descentFrom? none (dueAt time (all.drop cursor))).isSome = true := by
  by_cases first : cursor = position + 1
  · -- The first record due is no older than the last one played.
    have last : (all.take cursor).getLast? = some earlier := by
      rw [first, List.take_add_one, here, Option.toList_some, List.getLast?_concat]
    have head : (all.drop cursor).head? = some later := by
      rw [List.head?_drop, first, next]
    have bound := trails.onward earlier last later head
    omega
  · have offset {place : Nat} {record : Stamped β} (from_cursor : cursor ≤ place)
        (inside : place < cursor + (dueAt time (all.drop cursor)).length)
        (found : all[place]? = some record) :
        (dueAt time (all.drop cursor))[place - cursor]? = some record := by
      rw [dueAt_eq_take, List.getElem?_take_of_lt (by omega), List.getElem?_drop, ← found]
      congr 1
      omega
    have second : position + 1 - cursor = position - cursor + 1 := by omega
    have next := offset (by omega) due next
    rw [second] at next
    exact isSome_descentFrom? (offset (by omega) (by omega) here) next older

end Trails

def Takes (keys : StampKeys α) (replay : Replay α) (time : Int) (stream : Stream)
    (position : Nat) : Prop :=
  replay.cursors.get stream ≤ position ∧ position < replay.cursors.get stream +
    (dueAt time ((replay.log.stamped keys stream).drop (replay.cursors.get stream))).length

structure Tracks (keys : StampKeys α) (log : DriveLog α) (replay : Replay α)
    (snapshot : Snapshot α) : Prop where
  sameLog : replay.log = log
  sameKey : ∀ stream, (snapshot.window stream).key = keys stream
  trails : ∀ stream,
    Trails (log.stamped keys stream) (replay.cursors.get stream) (snapshot.window stream)

namespace Tracks

variable {keys : StampKeys α} {log : DriveLog α} {replay : Replay α} {snapshot : Snapshot α}

theorem advance (tracks : Tracks keys log replay snapshot) (step : Int) :
    Tracks keys log replay (snapshot.advance step) := by
  refine ⟨tracks.sameLog, ?_, ?_⟩
  · intro stream
    rw [Snapshot.window_advance]
    exact tracks.sameKey stream
  · intro stream
    rw [Snapshot.window_advance]
    exact (tracks.trails stream).evict _

theorem keyed (tracks : Tracks keys log replay snapshot) (stream : Stream) :
    ∀ record ∈ log.stamped keys stream,
      (snapshot.window stream).key record.value = .ok record.stamp := by
  intro record member
  rw [tracks.sameKey]
  exact keyed_of_mem_stampAll member

theorem playOf_eq (tracks : Tracks keys log replay snapshot) (readable : log.Readable keys)
    (time : Int) (stream : Stream) : replay.playOf snapshot time stream =
      (snapshot.window stream).play time
        (((log.stamped keys stream).drop (replay.cursors.get stream)).map Stamped.value) := by
  rw [playOf, pending, tracks.sameLog, List.map_drop, DriveLog.stamped,
    map_value_stampAll (readable stream)]

theorem regresses_of_fault (tracks : Tracks keys log replay snapshot) (readable : log.Readable keys)
    {time : Int} {stream : Stream} {fault : Fault α}
    (failing : (replay.playOf snapshot time stream).fault? = some fault) :
    ∃ position earlier later, replay.Takes keys time stream (position + 1) ∧
      (log.stamped keys stream)[position]? = some earlier ∧
      (log.stamped keys stream)[position + 1]? = some later ∧ later.stamp < earlier.stamp ∧
      fault = .outOfOrder later.stamp earlier.stamp := by
  have trails := tracks.trails stream
  have keyed := tracks.keyed stream
  rw [tracks.playOf_eq readable] at failing
  cases descends : descentFrom? none
      (dueAt time ((log.stamped keys stream).drop (replay.cursors.get stream))) with
  | none =>
      rw [(trails.feed keyed time descends).1] at failing
      cases failing
  | some pair =>
      obtain ⟨earlier, later⟩ := pair
      obtain ⟨position, behind, due, here, next, older⟩ := Trails.exists_position descends
      rw [← trails.descentFrom?_due] at descends
      rw [trails.inOrder.play_of_descends
        (fun record member => keyed record (List.mem_of_mem_drop member)) descends] at failing
      cases failing
      refine ⟨position, earlier, later, ?_, here, next, older, rfl⟩
      rw [Takes, tracks.sameLog]
      exact ⟨behind, due⟩

theorem isSome_fault_of_regresses (tracks : Tracks keys log replay snapshot)
    (readable : log.Readable keys) {time : Int} {stream : Stream} {position : Nat}
    (taken : replay.Takes keys time stream (position + 1))
    (regresses : log.Regresses keys stream position) :
    (replay.playOf snapshot time stream).fault?.isSome = true := by
  obtain ⟨earlier, later, here, next, older⟩ := regresses
  rw [Takes, tracks.sameLog] at taken
  have trails := tracks.trails stream
  obtain ⟨pair, descends⟩ := Option.isSome_iff_exists.mp
    (trails.isSome_descent taken.1 taken.2 here next older)
  rw [← trails.descentFrom?_due] at descends
  rw [tracks.playOf_eq readable, trails.inOrder.play_of_descends
    (fun record member => tracks.keyed stream record (List.mem_of_mem_drop member)) descends]
  rfl

theorem feedUntil (tracks : Tracks keys log replay snapshot) (readable : log.Readable keys)
    {time : Int} {count : Nat} (fed : (replay.feedUntil snapshot time).count = .ok count) :
    Tracks keys log (replay.feedUntil snapshot time).replay
      (replay.feedUntil snapshot time).snapshot := by
  have fated := fated_feedUntil replay snapshot time
  have each (stream : Stream) :
      ((replay.feedUntil snapshot time).snapshot.window stream).key = keys stream ∧
        Trails (log.stamped keys stream)
          ((replay.feedUntil snapshot time).replay.cursors.get stream)
          ((replay.feedUntil snapshot time).snapshot.window stream) := by
    cases fated.fate stream stream.mem_all with
    | failed fault failing told => cases told.symm.trans fed
    | untouched fault told => cases told.symm.trans fed
    | done unfailing window cursor =>
        -- A descent among the records due would be told as a fault.
        have ascends : descentFrom? none
            (dueAt time ((log.stamped keys stream).drop (replay.cursors.get stream))) = none := by
          cases descends : descentFrom? none
              (dueAt time ((log.stamped keys stream).drop (replay.cursors.get stream))) with
          | none => rfl
          | some pair =>
              obtain ⟨position, behind, due, here, next, older⟩ := Trails.exists_position descends
              have failing := tracks.isSome_fault_of_regresses readable
                (by rw [Takes, tracks.sameLog]; exact ⟨behind, due⟩) ⟨_, _, here, next, older⟩
              rw [unfailing] at failing
              cases failing
        obtain ⟨-, key, trails⟩ :=
          (tracks.trails stream).feed (tracks.keyed stream) time ascends
        rw [tracks.playOf_eq readable] at window cursor
        rw [window, cursor]
        exact ⟨key.trans (tracks.sameKey stream), trails⟩
  exact ⟨fated.sameLog.trans tracks.sameLog, fun stream => (each stream).1,
    fun stream => (each stream).2⟩

end Tracks

end Replay

namespace Player

variable {keys : StampKeys α} {log : DriveLog α}

theorem start_tracks {clock width : Int} {fresh : Snapshot α} (log : DriveLog α)
    (created : Snapshot.create keys clock width = .ok fresh) :
    Replay.Tracks keys log (start log fresh).replay (start log fresh).snapshot := by
  obtain ⟨-, rfl⟩ := (Snapshot.create_eq_ok_iff ..).mp created
  constructor
  · rfl
  · intro stream
    simp [start, Snapshot.window, Window.empty]
  · intro stream
    simp only [start, Replay.ofLog, Snapshot.window, PerStream.get_ofFn]
    exact Replay.Trails.start ..

theorem takeAll_tracks (readable : log.Readable keys) {player : Player α}
    (tracks : Replay.Tracks keys log player.replay player.snapshot) (steps : List PlayStep)
    (unfailing : ∀ outcome ∈ (player.takeAll steps).2, ∃ count, outcome = .ok count) :
    Replay.Tracks keys log (player.takeAll steps).1.replay (player.takeAll steps).1.snapshot := by
  induction steps generalizing player with
  | nil => exact tracks
  | cons step rest ih =>
      have next :
          Replay.Tracks keys log (player.take step).1.replay (player.take step).1.snapshot := by
        cases step with
        | feed time =>
            obtain ⟨count, fed⟩ := unfailing _ (List.mem_append_left _ List.mem_cons_self)
            exact tracks.feedUntil readable fed
        | advance step => exact tracks.advance step
      exact ih next fun outcome member => unfailing outcome (List.mem_append_right _ member)

/-- Behind any schedule without a failing feed, a feed fails for a record out of order exactly if it
has to take a record that is older than the one before it in the drive, and it tells such a pair. -/
theorem feedUntil_outOfOrder_iff (readable : log.Readable keys) {clock width : Int}
    {fresh : Snapshot α} (created : Snapshot.create keys clock width = .ok fresh)
    (steps : List PlayStep)
    (unfailing : ∀ outcome ∈ ((start log fresh).takeAll steps).2, ∃ count, outcome = .ok count)
    (time : Int) :
    let player := ((start log fresh).takeAll steps).1
    let outcome := (player.replay.feedUntil player.snapshot time).count
    ((∃ stamp newest, outcome = .error (.outOfOrder stamp newest)) ↔
      ∃ stream position, player.replay.Takes keys time stream (position + 1) ∧
        log.Regresses keys stream position) ∧
    ∀ fault, outcome = .error fault → ∃ stream position earlier later,
      player.replay.Takes keys time stream (position + 1) ∧
        (log.stamped keys stream)[position]? = some earlier ∧
        (log.stamped keys stream)[position + 1]? = some later ∧ later.stamp < earlier.stamp ∧
        fault = .outOfOrder later.stamp earlier.stamp := by
  intro player outcome
  have tracks := takeAll_tracks readable (start_tracks log created) steps unfailing
  have fated := Replay.fated_feedUntil player.replay player.snapshot time
  have source : ∀ fault, outcome = .error fault → ∃ stream position earlier later,
      player.replay.Takes keys time stream (position + 1) ∧
        (log.stamped keys stream)[position]? = some earlier ∧
        (log.stamped keys stream)[position + 1]? = some later ∧ later.stamp < earlier.stamp ∧
        fault = .outOfOrder later.stamp earlier.stamp := by
    intro fault told
    obtain ⟨stream, -, failing⟩ := fated.source fault told
    exact ⟨stream, tracks.regresses_of_fault readable failing⟩
  refine ⟨⟨?_, ?_⟩, source⟩
  · rintro ⟨stamp, newest, told⟩
    obtain ⟨stream, position, earlier, later, taken, here, next, older, -⟩ := source _ told
    exact ⟨stream, position, taken, earlier, later, here, next, older⟩
  · rintro ⟨stream, position, taken, regresses⟩
    have failing := tracks.isSome_fault_of_regresses readable taken regresses
    cases told : outcome with
    | error fault =>
        obtain ⟨-, -, earlier, later, -, -, -, -, rfl⟩ := source fault told
        exact ⟨_, _, rfl⟩
    | ok count =>
        -- The stream that regresses would have been fed to its end, but it fails when fed alone.
        cases fated.fate stream stream.mem_all with
        | done unfailing =>
            rw [unfailing] at failing
            cases failing
        | failed fault _ other => cases told.symm.trans other
        | untouched fault other => cases told.symm.trans other

def unsettledDrive : DriveLog Float where
  name := "unsettled"
  records := { PerStream.ofFn (fun _ => []) with
    odometry := [10, 30, 20].map fun stamp =>
      ⟨stamp, ⟨⟨0.0, 0.0, 0.0⟩, ⟨1.0, 0.0, 0.0, 0.0⟩⟩, []⟩ }

theorem unsettledDrive_readable : unsettledDrive.Readable recordStamp :=
  unsettledDrive.readable_recordStamp_iff.mpr nofun

theorem unsettledDrive_outOfOrder :
    let player := ((start unsettledDrive emptySnapshot).takeAll [.feed 10, .advance 25]).1
    unsettledDrive.Readable recordStamp ∧
    player.replay.Takes recordStamp 30 .odometry 2 ∧
    unsettledDrive.Regresses recordStamp .odometry 1 ∧
    ∃ stamp newest, (player.replay.feedUntil player.snapshot 30).count =
      .error (.outOfOrder stamp newest) := by
  intro player
  have created : Snapshot.create recordStamp 0 40 = .ok emptySnapshot := rfl
  have unfailing : ∀ outcome ∈
      ((start unsettledDrive emptySnapshot).takeAll [.feed 10, .advance 25]).2,
      ∃ count, outcome = .ok count := by
    intro outcome member
    have counted : ((start unsettledDrive emptySnapshot).takeAll [.feed 10, .advance 25]).2 =
        [.ok 1] := rfl
    rw [counted, List.mem_singleton] at member
    exact ⟨1, member⟩
  have taken : player.replay.Takes recordStamp 30 .odometry 2 := ⟨by decide, by decide⟩
  have regresses : unsettledDrive.Regresses recordStamp .odometry 1 :=
    ⟨_, _, rfl, rfl, by decide⟩
  obtain ⟨found, -⟩ :=
    feedUntil_outOfOrder_iff unsettledDrive_readable created _ unfailing 30
  exact ⟨unsettledDrive_readable, taken, regresses, found.mpr ⟨_, _, taken, regresses⟩⟩

end Player

end ManeuverRanking
