import ManeuverRanking.Proofs.Snapshot
import ManeuverRanking.Replay

/-!
Replay of a drive whose streams are in order. The invariant ties the cursor, the window and the clock
together, one stream at a time: what was played is what any feed has reached, and what is missing in
the window of it is older than the clock. Feeds and evictions keep it.
-/

namespace ManeuverRanking

variable {α β : Type}

def stampAll (key : β → Except (Fault α) Int) (values : List β) : List (Stamped β) :=
  values.filterMap fun value =>
    match key value with
    | .ok stamp => some ⟨stamp, value⟩
    | .error _ => none

theorem keyed_of_mem_stampAll {key : β → Except (Fault α) Int} {values : List β}
    {record : Stamped β} (member : record ∈ stampAll key values) :
    key record.value = .ok record.stamp := by
  obtain ⟨value, -, found⟩ := List.mem_filterMap.mp member
  cases read : key value with
  | error fault => simp [read] at found
  | ok stamp =>
      simp only [read, Option.some.injEq] at found
      rw [← found]
      exact read

theorem map_value_stampAll {key : β → Except (Fault α) Int} {values : List β}
    (readable : ∀ value ∈ values, ∃ stamp, key value = .ok stamp) :
    (stampAll key values).map Stamped.value = values := by
  induction values with
  | nil => rfl
  | cons value rest ih =>
      obtain ⟨stamp, read⟩ := readable value List.mem_cons_self
      have later := ih fun next member => readable next (List.mem_cons_of_mem _ member)
      rw [stampAll, List.filterMap_cons, read, List.map_cons]
      exact congrArg (List.cons value) later

namespace DriveLog

def stamped (keys : StampKeys α) (log : DriveLog α) (stream : Stream) :
    List (Stamped (Payload α stream)) :=
  stampAll (keys stream) (log.records.get stream)

structure Ordered (keys : StampKeys α) (log : DriveLog α) : Prop where
  readable : ∀ stream, ∀ value ∈ log.records.get stream, ∃ stamp, keys stream value = .ok stamp
  sorted : ∀ stream, (log.stamped keys stream).Pairwise fun first second =>
    first.stamp ≤ second.stamp

end DriveLog

namespace Window

def pushAll (window : Window α β) (records : List (Stamped β)) : Window α β :=
  records.foldl push window

theorem toList_pushAll (window : Window α β) (records : List (Stamped β)) :
    (window.pushAll records).toList = window.toList ++ records := by
  induction records generalizing window with
  | nil => simp [pushAll]
  | cons record rest ih =>
      have pushed := ih (window.push record)
      rw [pushAll] at pushed ⊢
      simp [pushed]

theorem pushAll_key_span (window : Window α β) (records : List (Stamped β)) :
    (window.pushAll records).key = window.key ∧ (window.pushAll records).span = window.span := by
  induction records generalizing window with
  | nil => exact ⟨rfl, rfl⟩
  | cons record rest ih => exact ih (window.push record)

theorem follows_of_sorted {records : List (Stamped β)} {record : Stamped β}
    {rest : List (Stamped β)}
    (sorted : (records ++ record :: rest).Pairwise fun first second =>
      first.stamp ≤ second.stamp) :
    ∀ newest ∈ records.getLast?, newest.stamp ≤ record.stamp := by
  intro newest last
  exact (List.pairwise_append.mp sorted).2.2 newest (List.mem_of_mem_getLast? last) record
    List.mem_cons_self

theorem InOrder.pushAll {window : Window α β} (inOrder : window.InOrder)
    {records : List (Stamped β)}
    (keyed : ∀ record ∈ records, window.key record.value = .ok record.stamp)
    (sorted : (window.toList ++ records).Pairwise fun first second =>
      first.stamp ≤ second.stamp) :
    (window.pushAll records).InOrder := by
  induction records generalizing window with
  | nil => exact inOrder
  | cons record rest ih =>
      have pushed := inOrder.push_inOrder record (keyed record List.mem_cons_self)
        (follows_of_sorted sorted)
      apply ih pushed
      · intro later member
        exact keyed later (List.mem_cons_of_mem _ member)
      · simpa using sorted

end Window

def totalCount : List Nat → Nat
  | [] => 0
  | count :: rest => count + totalCount rest

namespace Replay

theorem feedRecords_eq (snapshot : Snapshot α) (stream : Stream) (time : Int) (fed : Nat)
    (later : List (Stamped (Payload α stream))) (inOrder : (snapshot.window stream).InOrder)
    (keyed : ∀ record ∈ later, (snapshot.window stream).key record.value = .ok record.stamp)
    (sorted : ((snapshot.window stream).toList ++ later).Pairwise fun first second =>
      first.stamp ≤ second.stamp) :
    feedRecords snapshot stream time fed (later.map Stamped.value) =
      ⟨snapshot.put stream ((snapshot.window stream).pushAll
          (later.takeWhile fun record => decide (record.stamp ≤ time))),
        .ok (fed + (later.takeWhile fun record => decide (record.stamp ≤ time)).length)⟩ := by
  induction later generalizing snapshot fed with
  | nil => simp [feedRecords, Window.pushAll, Snapshot.put_window]
  | cons record rest ih =>
      have read := keyed record List.mem_cons_self
      simp only [List.map_cons, feedRecords, read, List.takeWhile_cons]
      by_cases due : record.stamp ≤ time
      · have follows := Window.follows_of_sorted sorted
        have appended : (snapshot.window stream).append record.value =
            .ok ((snapshot.window stream).push record, record) :=
          (inOrder.append_eq_ok_iff ..).mpr ⟨read, rfl, follows, rfl⟩
        let next := snapshot.put stream ((snapshot.window stream).push record)
        have window : next.window stream = (snapshot.window stream).push record :=
          Snapshot.window_put_same ..
        have rested := ih next (fed + 1)
          (by rw [window]; exact inOrder.push_inOrder record read follows)
          (by
            rw [window]
            exact fun later member => keyed later (List.mem_cons_of_mem _ member))
          (by rw [window]; simpa using sorted)
        simp only [due, if_true, Snapshot.append_eq, appended, Except.map]
        rw [rested, window, Snapshot.put_put]
        simp [Window.pushAll, Nat.add_assoc, Nat.add_comm]
      · simp [due, Window.pushAll, Snapshot.put_window]

theorem lt_of_mem_dropWhile {records : List (Stamped β)}
    (sorted : records.Pairwise fun first second => first.stamp ≤ second.stamp) (time : Int) :
    ∀ record ∈ records.dropWhile (fun record => decide (record.stamp ≤ time)),
      time < record.stamp := by
  intro record member
  induction records with
  | nil => simp at member
  | cons first rest ih =>
      have parts := List.pairwise_cons.mp sorted
      by_cases due : first.stamp ≤ time
      · rw [List.dropWhile_cons_of_pos (by simpa using due)] at member
        exact ih parts.2 member
      · rw [List.dropWhile_cons_of_neg (by simpa using due)] at member
        rcases List.mem_cons.mp member with same | later
        · subst record
          omega
        · have ordered := parts.1 record later
          omega

/-- How far one stream of a replay is: its records in the log, the stamps some feed has reached, the
clock, the cursor and the window. -/
structure Holds (all : List (Stamped β)) (reached : Int → Bool) (clock : Int)
    (cursor : Nat) (window : Window α β) : Prop where
  inOrder : window.InOrder
  played : ∀ record ∈ all.take cursor, reached record.stamp = true
  pending : ∀ record ∈ all.drop cursor, reached record.stamp = false
  inside : cursor ≤ all.length
  kept : ∃ evicted, all.take cursor = evicted ++ window.toList ∧
    ∀ record ∈ evicted, record.stamp < clock

namespace Holds

variable {all : List (Stamped β)} {reached : Int → Bool} {clock : Int} {cursor : Nat}
  {window : Window α β}

theorem start (all : List (Stamped β)) (clock : Int) (key : β → Except (Fault α) Int)
    (span : Nat) : Holds all (fun _ => false) clock 0 (Window.empty key span) where
  inOrder := Window.empty_inOrder key span
  played := by simp
  pending := by simp
  inside := Nat.zero_le _
  kept := ⟨[], by simp [Window.toList, Window.empty], by simp⟩

theorem cursor_eq (holds : Holds all reached clock cursor window) :
    cursor = all.countP fun record => reached record.stamp := by
  have split := congrArg (List.countP fun record => reached record.stamp)
    (List.take_append_drop cursor all)
  rw [List.countP_append, List.countP_eq_length.mpr holds.played, List.countP_eq_zero.mpr,
    List.length_take, Nat.min_eq_left holds.inside, Nat.add_zero] at split
  · exact split
  · intro record member
    simp [holds.pending record member]

theorem sorted_pending (holds : Holds all reached clock cursor window)
    (sorted : all.Pairwise fun first second => first.stamp ≤ second.stamp) :
    (window.toList ++ all.drop cursor).Pairwise fun first second =>
      first.stamp ≤ second.stamp := by
  obtain ⟨evicted, split, -⟩ := holds.kept
  have whole := sorted
  rw [← List.take_append_drop cursor all, split, List.append_assoc] at whole
  exact (List.pairwise_append.mp whole).2.1

theorem feed (holds : Holds all reached clock cursor window)
    (sorted : all.Pairwise fun first second => first.stamp ≤ second.stamp)
    (keyed : ∀ record ∈ all, window.key record.value = .ok record.stamp) (time : Int) :
    let taken := (all.drop cursor).takeWhile fun record => decide (record.stamp ≤ time)
    Holds all (fun stamp => reached stamp || decide (stamp ≤ time)) clock (cursor + taken.length)
      (window.pushAll taken) := by
  intro taken
  let left := (all.drop cursor).dropWhile fun record => decide (record.stamp ≤ time)
  have split : taken ++ left = all.drop cursor := List.takeWhile_append_dropWhile
  have played : all.take (cursor + taken.length) = all.take cursor ++ taken := by
    rw [List.take_add, ← split, List.take_left]
  have pending : all.drop (cursor + taken.length) = left := by
    rw [← List.drop_drop, ← split, List.drop_left]
  have order := holds.sorted_pending sorted
  constructor
  · apply holds.inOrder.pushAll
    · intro record member
      apply keyed
      apply List.mem_of_mem_drop (i := cursor)
      rw [← split]
      exact List.mem_append_left _ member
    · rw [← split, ← List.append_assoc] at order
      exact (List.pairwise_append.mp order).1
  · intro record member
    rw [played, List.mem_append] at member
    rcases member with old | new
    · simp [holds.played record old]
    · have due := List.all_eq_true.mp List.all_takeWhile record new
      rw [due, Bool.or_true]
  · intro record member
    rw [pending] at member
    have old : record ∈ all.drop cursor := by
      rw [← split]
      exact List.mem_append_right _ member
    have late := lt_of_mem_dropWhile (List.pairwise_append.mp order).2.1 time record member
    simp [holds.pending record old, late]
  · have lengths := congrArg List.length split
    simp only [List.length_append, List.length_drop] at lengths
    have inside := holds.inside
    omega
  · obtain ⟨evicted, kept, older⟩ := holds.kept
    refine ⟨evicted, ?_, older⟩
    rw [played, kept, Window.toList_pushAll, List.append_assoc]

theorem evict (holds : Holds all reached clock cursor window) (now : Int) (forward : clock ≤ now) :
    Holds all reached now cursor (window.evict now).1 := by
  obtain ⟨evicted, split, older⟩ := holds.kept
  obtain ⟨-, passed, failed⟩ := holds.inOrder.countEarly_splits
    (fun stamp => decide (stamp < now)) (Window.older_downward now)
  refine ⟨holds.inOrder.evict_inOrder now, holds.played, holds.pending, holds.inside, ?_⟩
  refine ⟨evicted ++ window.toList.filter fun record => decide (record.stamp < now), ?_, ?_⟩
  · rw [Window.evict, holds.inOrder.evictWhere_toList _ (Window.older_downward now), ← passed,
      ← failed, List.append_assoc, List.take_append_drop, split]
  · intro record member
    rcases List.mem_append.mp member with before | just
    · have bound := older record before
      omega
    · simpa using (List.mem_filter.mp just).2

theorem toList_eq (holds : Holds all reached clock cursor window)
    (fresh : ∀ record ∈ window.toList, clock ≤ record.stamp) :
    window.toList =
      all.filter fun record => decide (clock ≤ record.stamp) && reached record.stamp := by
  obtain ⟨evicted, split, older⟩ := holds.kept
  have past : evicted.filter (fun record =>
      decide (clock ≤ record.stamp) && reached record.stamp) = [] := by
    apply List.filter_eq_nil_iff.mpr
    intro record member
    have bound := older record member
    simp [Int.not_le.mpr bound]
  have present : window.toList.filter (fun record =>
      decide (clock ≤ record.stamp) && reached record.stamp) = window.toList := by
    apply List.filter_eq_self.mpr
    intro record member
    have played := holds.played record (by rw [split]; exact List.mem_append_right _ member)
    simp [fresh record member, played]
  have future : (all.drop cursor).filter (fun record =>
      decide (clock ≤ record.stamp) && reached record.stamp) = [] := by
    apply List.filter_eq_nil_iff.mpr
    intro record member
    simp [holds.pending record member]
  conv => rhs; rw [← List.take_append_drop cursor all, split]
  rw [List.filter_append, List.filter_append, past, present, future]
  simp

end Holds

def played (replay : Replay α) : Nat :=
  totalCount (replay.cursors.toList fun _ cursor => cursor)

theorem played_set (replay : Replay α) (stream : Stream) (count : Nat) :
    played { replay with cursors := replay.cursors.set stream (replay.cursors.get stream + count) } =
      replay.played + count := by
  cases stream <;>
    simp [played, totalCount, PerStream.toList, Stream.all, PerStream.get, PerStream.set] <;> omega

structure Playing (keys : StampKeys α) (log : DriveLog α) (span : Nat)
    (reached : Stream → Int → Bool) (replay : Replay α) (snapshot : Snapshot α) : Prop where
  sameLog : replay.log = log
  sameKey : ∀ stream, (snapshot.window stream).key = keys stream
  sameSpan : ∀ stream, (snapshot.window stream).span = span
  holds : ∀ stream, Holds (log.stamped keys stream) (reached stream) snapshot.clock
    (replay.cursors.get stream) (snapshot.window stream)

namespace Playing

variable {keys : StampKeys α} {log : DriveLog α} {span : Nat} {reached : Stream → Int → Bool}
  {replay : Replay α} {snapshot : Snapshot α}

theorem start (keys : StampKeys α) (log : DriveLog α) (clock : Int) (span : Nat) :
    Playing keys log span (fun _ _ => false) (.ofLog log)
      ⟨clock, .ofFn fun stream => Window.empty (keys stream) span⟩ := by
  constructor
  · rfl
  · intro stream
    simp [Snapshot.window, Window.empty]
  · intro stream
    simp [Snapshot.window, Window.empty]
  · intro stream
    simp only [Snapshot.window, ofLog, PerStream.get_ofFn]
    exact Holds.start _ _ _ _

theorem feedStream (playing : Playing keys log span reached replay snapshot)
    (ordered : log.Ordered keys) (stream : Stream) (time : Int) :
    let fed := feedRecords snapshot stream time 0 (replay.pending stream)
    ∃ count, fed.count = .ok count ∧
      Playing keys log span
        (fun other stamp => reached other stamp || (decide (other = stream) && decide (stamp ≤ time)))
        { replay with cursors := replay.cursors.set stream (replay.cursors.get stream + count) }
        fed.snapshot := by
  intro fed
  let later := (log.stamped keys stream).drop (replay.cursors.get stream)
  let taken := later.takeWhile fun record => decide (record.stamp ≤ time)
  have holds := playing.holds stream
  have keyed : ∀ record ∈ log.stamped keys stream,
      (snapshot.window stream).key record.value = .ok record.stamp := by
    intro record member
    rw [playing.sameKey]
    exact keyed_of_mem_stampAll member
  have pending : replay.pending stream = later.map Stamped.value := by
    rw [List.map_drop, DriveLog.stamped, map_value_stampAll (ordered.readable stream),
      Replay.pending, playing.sameLog]
  have result : fed = ⟨snapshot.put stream ((snapshot.window stream).pushAll taken),
      .ok (0 + taken.length)⟩ := by
    simp only [fed, pending]
    exact feedRecords_eq snapshot stream time 0 later holds.inOrder
      (fun record member => keyed record (List.mem_of_mem_drop member))
      (holds.sorted_pending (ordered.sorted stream))
  refine ⟨taken.length, by rw [result, Nat.zero_add], ?_⟩
  rw [result]
  -- One window is replaced, so each field is shown of the new window and of all others.
  obtain ⟨pushedKey, pushedSpan⟩ := (snapshot.window stream).pushAll_key_span taken
  constructor
  · exact playing.sameLog
  · apply Snapshot.forall_window_put fun other window => window.key = keys other
    · rw [pushedKey, playing.sameKey]
    · intro other _
      exact playing.sameKey other
  · apply Snapshot.forall_window_put fun _ window => window.span = span
    · rw [pushedSpan, playing.sameSpan]
    · intro other _
      exact playing.sameSpan other
  · apply Snapshot.forall_window_put fun other window => Holds (log.stamped keys other)
      (fun stamp => reached other stamp || (decide (other = stream) && decide (stamp ≤ time)))
      snapshot.clock
      ((replay.cursors.set stream (replay.cursors.get stream + taken.length)).get other) window
    · simp only [decide_true, Bool.true_and, PerStream.get_set_same]
      exact holds.feed (ordered.sorted stream) keyed time
    · intro other distinct
      simp only [distinct, decide_false, Bool.false_and, Bool.or_false,
        PerStream.get_set_other _ _ distinct]
      exact playing.holds other

theorem feedStreams (playing : Playing keys log span reached replay snapshot)
    (ordered : log.Ordered keys) (time : Int) (total : Nat) (streams : List Stream) :
    let progress := replay.feedStreams snapshot time total streams
    ∃ count, progress.count = .ok (total + count) ∧
      progress.replay.played = replay.played + count ∧
      Playing keys log span
        (fun stream stamp => reached stream stamp ||
          (decide (stream ∈ streams) && decide (stamp ≤ time)))
        progress.replay progress.snapshot := by
  induction streams generalizing reached replay snapshot total with
  | nil => exact ⟨0, rfl, rfl, by simpa [Replay.feedStreams] using playing⟩
  | cons stream rest ih =>
      obtain ⟨count, counted, next⟩ := playing.feedStream ordered stream time
      obtain ⟨more, finished, played, last⟩ := ih next (total + count)
      refine ⟨count + more, ?_, ?_, ?_⟩
      · simp only [Replay.feedStreams, counted]
        rw [finished, Nat.add_assoc]
      · simp only [Replay.feedStreams, counted]
        rw [played, played_set, Nat.add_assoc]
      · have union : (fun other stamp =>
            reached other stamp || (decide (other ∈ stream :: rest) && decide (stamp ≤ time))) =
            fun other stamp =>
              reached other stamp || (decide (other = stream) && decide (stamp ≤ time)) ||
                (decide (other ∈ rest) && decide (stamp ≤ time)) := by
          funext other stamp
          simp only [List.mem_cons, Bool.decide_or, Bool.and_or_distrib_right, Bool.or_assoc]
        simp only [Replay.feedStreams, counted]
        rw [union]
        exact last

theorem feedUntil (playing : Playing keys log span reached replay snapshot)
    (ordered : log.Ordered keys) (time : Int) :
    let progress := replay.feedUntil snapshot time
    ∃ count, progress.count = .ok count ∧ progress.replay.played = replay.played + count ∧
      Playing keys log span (fun stream stamp => reached stream stamp || decide (stamp ≤ time))
        progress.replay progress.snapshot := by
  obtain ⟨count, counted, played, next⟩ := playing.feedStreams ordered time 0 Stream.all
  refine ⟨count, by rw [Replay.feedUntil, counted, Nat.zero_add], played, ?_⟩
  simp only [Stream.mem_all, decide_true, Bool.true_and] at next
  exact next

theorem advance (playing : Playing keys log span reached replay snapshot) (step : Int)
    (forward : 0 ≤ step) : Playing keys log span reached replay (snapshot.advance step) := by
  constructor
  · exact playing.sameLog
  · intro stream
    rw [Snapshot.window_advance]
    exact playing.sameKey stream
  · intro stream
    rw [Snapshot.window_advance]
    exact playing.sameSpan stream
  · intro stream
    rw [Snapshot.window_advance]
    exact (playing.holds stream).evict (snapshot.clock + step) (by omega)

theorem played_eq (playing : Playing keys log span reached replay snapshot) :
    replay.played = totalCount (Stream.all.map fun stream =>
      (log.stamped keys stream).countP fun record => reached stream record.stamp) := by
  rw [played, PerStream.toList]
  congr 2
  funext stream
  exact (playing.holds stream).cursor_eq

/-- What was reached and the records in the windows determine the replay and the snapshot. -/
theorem eq_of_toList {other : Replay α} {otherSnapshot : Snapshot α}
    (left : Playing keys log span reached replay snapshot)
    (right : Playing keys log span reached other otherSnapshot)
    (clock : snapshot.clock = otherSnapshot.clock)
    (records : ∀ stream,
      (snapshot.window stream).toList = (otherSnapshot.window stream).toList) :
    replay = other ∧ snapshot = otherSnapshot := by
  constructor
  · have cursors : replay.cursors = other.cursors := by
      apply PerStream.ext_get
      intro stream
      rw [(left.holds stream).cursor_eq, (right.holds stream).cursor_eq]
    have logs := left.sameLog.trans right.sameLog.symm
    cases replay
    cases other
    simp_all
  · apply Snapshot.ext_window clock
    intro stream
    apply Window.InOrder.eq_of_toList (left.holds stream).inOrder (right.holds stream).inOrder
    · rw [left.sameKey, right.sameKey]
    · rw [left.sameSpan, right.sameSpan]
    · exact records stream

end Playing

end Replay

end ManeuverRanking
