import ManeuverRanking.Proofs.Replay.Feeding

/-!
A feed taken apart into its streams. What becomes of a stream is told by its own window and its own
pending records, unless the feed has stopped at a stream before it.
-/

namespace ManeuverRanking

variable {α β : Type}

namespace Window

structure Played (α β : Type) where
  window : Window α β
  count : Nat
  fault? : Option (Fault α)

def play (window : Window α β) (time : Int) : List β → Played α β
  | [] => ⟨window, 0, none⟩
  | value :: rest =>
      match window.key value with
      | .error fault => ⟨window, 0, some fault⟩
      | .ok stamp =>
          if stamp ≤ time then
            match window.append value with
            | .error fault => ⟨window, 0, some fault⟩
            | .ok (next, _) =>
                let later := next.play time rest
                { later with count := later.count + 1 }
          else ⟨window, 0, none⟩

def Played.total (played : Played α β) (fed : Nat) : Except (Fault α) Nat :=
  match played.fault? with
  | some fault => .error fault
  | none => .ok (fed + played.count)

theorem Played.total_eq_ok_iff (played : Played α β) (fed sum : Nat) :
    played.total fed = .ok sum ↔ played.fault? = none ∧ fed + played.count = sum := by
  unfold total
  cases played.fault? <;> simp

theorem Played.total_eq_error_iff (played : Played α β) (fed : Nat) (fault : Fault α) :
    played.total fed = .error fault ↔ played.fault? = some fault := by
  unfold total
  cases played.fault? <;> simp

theorem InOrder.play_cons {window : Window α β} (inOrder : window.InOrder) (time : Int) (value : β)
    (rest : List β) :
    (∃ fault?, window.play time (value :: rest) = ⟨window, 0, fault?⟩) ∨
      ∃ record, window.key value = .ok record.stamp ∧ record.value = value ∧
        (window.push record).InOrder ∧
        window.play time (value :: rest) =
          { (window.push record).play time rest with
            count := ((window.push record).play time rest).count + 1 } := by
  rw [play]
  split
  · exact .inl ⟨_, rfl⟩
  · split
    · split
      · exact .inl ⟨_, rfl⟩
      · rename_i next record appended
        obtain ⟨read, same, follows, rfl⟩ := (inOrder.append_eq_ok_iff ..).mp appended
        rw [← same] at read
        refine .inr ⟨record, ?_, same, inOrder.push_inOrder record read follows, rfl⟩
        rw [← same, read]
    · exact .inl ⟨_, rfl⟩

theorem InOrder.play {window : Window α β} (inOrder : window.InOrder) (time : Int)
    (values : List β) :
    let played := window.play time values
    played.window.InOrder ∧ played.window.key = window.key ∧ played.count ≤ values.length ∧
      ∃ records, played.window.toList = window.toList ++ records ∧
        records.map Stamped.value = values.take played.count := by
  induction values generalizing window with
  | nil => exact ⟨inOrder, rfl, Nat.le_refl 0, [], (List.append_nil _).symm, rfl⟩
  | cons value rest ih =>
      rcases inOrder.play_cons time value rest with ⟨fault?, stopped⟩ | ⟨record, -, same, next, goes⟩
      · rw [stopped]
        exact ⟨inOrder, rfl, Nat.zero_le _, [], (List.append_nil _).symm, rfl⟩
      · obtain ⟨last, key, bound, records, behind, values⟩ := ih next
        rw [goes]
        refine ⟨last, key, Nat.succ_le_succ bound, record :: records, ?_, ?_⟩
        · rw [behind, toList_push, List.append_assoc, List.singleton_append]
        · rw [List.map_cons, List.take_succ_cons, values, same]

end Window

namespace Replay

theorem feedRecords_eq_play (snapshot : Snapshot α) (stream : Stream) (time : Int) (fed : Nat)
    (values : List (Payload α stream)) :
    feedRecords snapshot stream time fed values =
      ⟨snapshot.put stream ((snapshot.window stream).play time values).window,
        ((snapshot.window stream).play time values).total fed⟩ := by
  induction values generalizing snapshot fed with
  | nil => simp [feedRecords, Window.play, Window.Played.total, Snapshot.put_window]
  | cons value rest ih =>
      rw [feedRecords, Window.play]
      cases read : (snapshot.window stream).key value with
      | error fault => simp [Window.Played.total, Snapshot.put_window]
      | ok stamp =>
          by_cases due : stamp ≤ time
          · simp only [due, if_true, Snapshot.append_eq]
            cases placed : (snapshot.window stream).append value with
            | error fault => simp [Except.map, Window.Played.total, Snapshot.put_window]
            | ok pair =>
                simp only [Except.map, ih, Snapshot.window_put_same, Snapshot.put_put,
                  Window.Played.total, Nat.add_assoc, Nat.add_comm 1]
          · simp [due, Window.Played.total, Snapshot.put_window]

def playOf (replay : Replay α) (snapshot : Snapshot α) (time : Int) (stream : Stream) :
    Window.Played α (Payload α stream) :=
  (snapshot.window stream).play time (replay.pending stream)

theorem playOf_congr {replay replay' : Replay α} {snapshot snapshot' : Snapshot α} {stream : Stream}
    (log : replay'.log = replay.log)
    (window : snapshot'.window stream = snapshot.window stream)
    (cursor : replay'.cursors.get stream = replay.cursors.get stream) (time : Int) :
    replay'.playOf snapshot' time stream = replay.playOf snapshot time stream := by
  unfold playOf pending
  rw [log, window, cursor]

inductive Fate (replay : Replay α) (snapshot : Snapshot α) (time : Int) (progress : Progress α)
    (stream : Stream) : Prop
  | done (unfailing : (replay.playOf snapshot time stream).fault? = none)
      (window : progress.snapshot.window stream = (replay.playOf snapshot time stream).window)
      (cursor : progress.replay.cursors.get stream =
        replay.cursors.get stream + (replay.playOf snapshot time stream).count)
  | failed (fault : Fault α) (failing : (replay.playOf snapshot time stream).fault? = some fault)
      (told : progress.count = .error fault)
      (window : progress.snapshot.window stream = (replay.playOf snapshot time stream).window)
      (cursor : progress.replay.cursors.get stream = replay.cursors.get stream)
  | untouched (fault : Fault α) (told : progress.count = .error fault)
      (window : progress.snapshot.window stream = snapshot.window stream)
      (cursor : progress.replay.cursors.get stream = replay.cursors.get stream)

/-- A feed of some streams: each of them has its fate, all others stay as they are, and a failing
feed tells the fault of one of them. -/
structure Fated (replay : Replay α) (snapshot : Snapshot α) (time : Int) (streams : List Stream)
    (progress : Progress α) : Prop where
  sameLog : progress.replay.log = replay.log
  fate : ∀ stream ∈ streams, Fate replay snapshot time progress stream
  others : ∀ stream ∉ streams, progress.snapshot.window stream = snapshot.window stream ∧
    progress.replay.cursors.get stream = replay.cursors.get stream
  source : ∀ fault, progress.count = .error fault →
    ∃ stream ∈ streams, (replay.playOf snapshot time stream).fault? = some fault

namespace Fated

variable {replay : Replay α} {snapshot : Snapshot α} {time : Int} {stream : Stream}
  {rest : List Stream}

theorem stop {fault : Fault α} (distinct : stream ∉ rest)
    (failing : (replay.playOf snapshot time stream).fault? = some fault) :
    Fated replay snapshot time (stream :: rest)
      ⟨replay, snapshot.put stream (replay.playOf snapshot time stream).window, .error fault⟩ where
  sameLog := rfl
  fate := by
    intro other member
    rcases List.mem_cons.mp member with rfl | later
    · exact .failed fault failing rfl (Snapshot.window_put_same ..) rfl
    · have different : other ≠ stream := fun same => distinct (same ▸ later)
      exact .untouched fault rfl (Snapshot.window_put_other _ _ different) rfl
  others := by
    intro other outside
    have different : other ≠ stream := fun same => outside (same ▸ List.mem_cons_self)
    exact ⟨Snapshot.window_put_other _ _ different, rfl⟩
  source := by
    intro other same
    cases same
    exact ⟨stream, List.mem_cons_self, failing⟩

def moved (replay : Replay α) (stream : Stream) (count : Nat) : Replay α :=
  { replay with cursors := replay.cursors.set stream (replay.cursors.get stream + count) }

theorem go {progress : Progress α} (distinct : stream ∉ rest)
    (unfailing : (replay.playOf snapshot time stream).fault? = none)
    (later : Fated (moved replay stream (replay.playOf snapshot time stream).count)
      (snapshot.put stream (replay.playOf snapshot time stream).window) time rest progress) :
    Fated replay snapshot time (stream :: rest) progress := by
  have cursor (other : Stream) (different : other ≠ stream) :
      (moved replay stream (replay.playOf snapshot time stream).count).cursors.get other =
        replay.cursors.get other :=
    PerStream.get_set_other _ _ different
  have window (other : Stream) (different : other ≠ stream) :
      (snapshot.put stream (replay.playOf snapshot time stream).window).window other =
        snapshot.window other :=
    Snapshot.window_put_other _ _ different
  -- What a later stream comes to does not depend on the first one.
  have alone (other : Stream) (different : other ≠ stream) :
      (moved replay stream (replay.playOf snapshot time stream).count).playOf
        (snapshot.put stream (replay.playOf snapshot time stream).window) time other =
          replay.playOf snapshot time other := by
    apply playOf_congr
    · rfl
    · exact window other different
    · exact cursor other different
  have apart : ∀ other ∈ rest, other ≠ stream := fun other member same => distinct (same ▸ member)
  constructor
  · exact later.sameLog
  · intro other member
    rcases List.mem_cons.mp member with rfl | inside
    · obtain ⟨sameWindow, sameCursor⟩ := later.others other distinct
      refine .done unfailing ?_ ?_
      · rw [sameWindow, Snapshot.window_put_same]
      · rw [sameCursor, moved, PerStream.get_set_same]
    · have different := apart other inside
      cases later.fate other inside with
      | done unfailing window' cursor' =>
          rw [alone other different] at unfailing window' cursor'
          rw [cursor other different] at cursor'
          exact .done unfailing window' cursor'
      | failed fault failing told window' cursor' =>
          rw [alone other different] at failing window'
          exact .failed fault failing told window' (cursor'.trans (cursor other different))
      | untouched fault told window' cursor' =>
          exact .untouched fault told (window'.trans (window other different))
            (cursor'.trans (cursor other different))
  · intro other outside
    have different : other ≠ stream := fun same => outside (same ▸ List.mem_cons_self)
    have outside : other ∉ rest := fun member => outside (List.mem_cons_of_mem _ member)
    obtain ⟨sameWindow, sameCursor⟩ := later.others other outside
    exact ⟨sameWindow.trans (window other different), sameCursor.trans (cursor other different)⟩
  · intro fault told
    obtain ⟨other, member, failing⟩ := later.source fault told
    rw [alone other (apart other member)] at failing
    exact ⟨other, List.mem_cons_of_mem _ member, failing⟩

end Fated

theorem fated_feedStreams (replay : Replay α) (snapshot : Snapshot α) (time : Int) (total : Nat)
    {streams : List Stream} (distinct : streams.Nodup) :
    Fated replay snapshot time streams (replay.feedStreams snapshot time total streams) := by
  induction streams generalizing replay snapshot total with
  | nil => exact ⟨rfl, nofun, fun _ _ => ⟨rfl, rfl⟩, nofun⟩
  | cons stream rest ih =>
      obtain ⟨fresh, distinct⟩ := List.nodup_cons.mp distinct
      have fed : feedRecords snapshot stream time 0 (replay.pending stream) =
          ⟨snapshot.put stream (replay.playOf snapshot time stream).window,
            (replay.playOf snapshot time stream).total 0⟩ :=
        feedRecords_eq_play ..
      simp only [feedStreams, fed]
      cases told : (replay.playOf snapshot time stream).total 0 with
      | error fault => exact Fated.stop fresh ((Window.Played.total_eq_error_iff ..).mp told)
      | ok count =>
          obtain ⟨unfailing, rfl⟩ := (Window.Played.total_eq_ok_iff ..).mp told
          refine Fated.go fresh unfailing ?_
          rw [Nat.zero_add]
          exact ih _ _ _ distinct

theorem fated_feedUntil (replay : Replay α) (snapshot : Snapshot α) (time : Int) :
    Fated replay snapshot time Stream.all (replay.feedUntil snapshot time) :=
  fated_feedStreams replay snapshot time 0 (by decide)

end Replay

end ManeuverRanking
