import ManeuverRanking.Proofs.Replay.Feeding

/-!
Snapshots with a whole drive in them. Nothing is evicted and no time is too late; the streams may
take turns in any way, as long as each stream keeps its own order.
-/

namespace ManeuverRanking

variable {α : Type}

@[reducible] def Entry (α : Type) : Type :=
  (stream : Stream) × Payload α stream

def Entry.of? (stream : Stream) (entry : Entry α) : Option (Payload α stream) :=
  if same : entry.1 = stream then some (same ▸ entry.2) else none

def entriesOf (stream : Stream) (entries : List (Entry α)) : List (Payload α stream) :=
  entries.filterMap (Entry.of? stream)

theorem entriesOf_cons_same (stream : Stream) (value : Payload α stream)
    (rest : List (Entry α)) :
    entriesOf stream (⟨stream, value⟩ :: rest) = value :: entriesOf stream rest := by
  simp [entriesOf, Entry.of?]

theorem entriesOf_cons_other {stream other : Stream} (distinct : other ≠ stream)
    (value : Payload α stream) (rest : List (Entry α)) :
    entriesOf other (⟨stream, value⟩ :: rest) = entriesOf other rest := by
  simp [entriesOf, Entry.of?, distinct.symm]

theorem entriesOf_map_same (stream : Stream) (values : List (Payload α stream)) :
    entriesOf stream (values.map fun value => (⟨stream, value⟩ : Entry α)) = values := by
  induction values with
  | nil => rfl
  | cons value rest ih => rw [List.map_cons, entriesOf_cons_same, ih]

theorem entriesOf_map_other {stream other : Stream} (distinct : other ≠ stream)
    (values : List (Payload α stream)) :
    entriesOf other (values.map fun value => (⟨stream, value⟩ : Entry α)) = [] := by
  induction values with
  | nil => rfl
  | cons value rest ih => rw [List.map_cons, entriesOf_cons_other distinct, ih]

theorem Stream.flatMap_all_eq {β : Type} (piece : Stream → List β) (stream : Stream)
    (only : ∀ other, other ≠ stream → piece other = []) :
    Stream.all.flatMap piece = piece stream := by
  cases stream <;> simp [Stream.all, only]

theorem entriesOf_entries (log : DriveLog α) (stream : Stream) :
    entriesOf stream log.entries = log.records.get stream := by
  rw [entriesOf, DriveLog.entries, List.filterMap_flatMap, Stream.flatMap_all_eq _ stream]
  · exact entriesOf_map_same stream _
  · intro other distinct
    exact entriesOf_map_other distinct.symm _

theorem stampAll_cons {β : Type} {key : β → Except (Fault α) Int} {value : β} {stamp : Int}
    (read : key value = .ok stamp) (rest : List β) :
    stampAll key (value :: rest) = ⟨stamp, value⟩ :: stampAll key rest := by
  rw [stampAll, List.filterMap_cons, read]
  rfl

structure Window.Takes {β : Type} (window : Window α β) (key : β → Except (Fault α) Int)
    (values : List β) : Prop where
  inOrder : window.InOrder
  sameKey : window.key = key
  readable : ∀ value ∈ values, ∃ stamp, key value = .ok stamp
  sorted : (window.toList ++ stampAll key values).Pairwise fun first second =>
    first.stamp ≤ second.stamp

theorem Window.Takes.append_first {β : Type} {window : Window α β}
    {key : β → Except (Fault α) Int} {value : β} {rest : List β}
    (takes : window.Takes key (value :: rest)) :
    ∃ record, stampAll key (value :: rest) = record :: stampAll key rest ∧
      window.append value = .ok (window.push record, record) ∧
      (window.push record).Takes key rest := by
  obtain ⟨stamp, read⟩ := takes.readable value List.mem_cons_self
  have listed := stampAll_cons read rest
  have sorted := takes.sorted
  rw [listed] at sorted
  have follows := follows_of_sorted sorted
  have keyed : window.key value = .ok stamp := by
    rw [takes.sameKey]
    exact read
  refine ⟨⟨stamp, value⟩, listed, ?_, ?_⟩
  · exact (takes.inOrder.append_eq_ok_iff ..).mpr ⟨keyed, rfl, follows, rfl⟩
  · constructor
    · exact takes.inOrder.push_inOrder _ keyed follows
    · exact takes.sameKey
    · intro later member
      exact takes.readable later (List.mem_cons_of_mem _ member)
    · simpa using sorted

namespace Snapshot

def appendAll (snapshot : Snapshot α) : List (Entry α) → Except (Fault α) (Snapshot α)
  | [] => .ok snapshot
  | ⟨stream, value⟩ :: rest =>
      match snapshot.append stream value with
      | .error fault => .error fault
      | .ok (next, _) => next.appendAll rest

theorem appendAll_eq_ok (keys : StampKeys α) (entries : List (Entry α)) (snapshot : Snapshot α)
    (takes : ∀ stream, (snapshot.window stream).Takes (keys stream) (entriesOf stream entries)) :
    ∃ full, snapshot.appendAll entries = .ok full ∧ full.clock = snapshot.clock ∧
      ∀ stream, (full.window stream).InOrder ∧ (full.window stream).toList =
        (snapshot.window stream).toList ++ stampAll (keys stream) (entriesOf stream entries) := by
  induction entries generalizing snapshot with
  | nil =>
      refine ⟨snapshot, rfl, rfl, fun stream => ⟨(takes stream).inOrder, ?_⟩⟩
      simp [entriesOf, stampAll]
  | cons entry rest ih =>
      obtain ⟨stream, value⟩ := entry
      have here := takes stream
      rw [entriesOf_cons_same] at here
      obtain ⟨record, listed, placed, taken⟩ := here.append_first
      have appended : snapshot.append stream value =
          .ok (snapshot.put stream ((snapshot.window stream).push record), record) := by
        rw [append_eq, placed]
        rfl
      have later : ∀ other,
          ((snapshot.put stream ((snapshot.window stream).push record)).window other).Takes
            (keys other) (entriesOf other rest) := by
        apply forall_window_put
          (fun other window => window.Takes (keys other) (entriesOf other rest)) taken
        intro other distinct
        rw [← entriesOf_cons_other distinct value rest]
        exact takes other
      have lists : ∀ other,
          ((snapshot.put stream ((snapshot.window stream).push record)).window other).toList ++
            stampAll (keys other) (entriesOf other rest) = (snapshot.window other).toList ++
            stampAll (keys other) (entriesOf other (⟨stream, value⟩ :: rest)) := by
        apply forall_window_put fun other window =>
          window.toList ++ stampAll (keys other) (entriesOf other rest) =
            (snapshot.window other).toList ++
              stampAll (keys other) (entriesOf other (⟨stream, value⟩ :: rest))
        · rw [entriesOf_cons_same, listed]
          simp
        · intro other distinct
          rw [entriesOf_cons_other distinct]
      obtain ⟨full, done, clock, windows⟩ := ih _ later
      refine ⟨full, ?_, clock, fun other => ⟨(windows other).1, ?_⟩⟩
      · rw [appendAll, appended]
        exact done
      · rw [(windows other).2, lists]

end Snapshot

def DriveLog.Arranged (log : DriveLog α) (entries : List (Entry α)) : Prop :=
  ∀ stream, entriesOf stream entries = log.records.get stream

def Snapshot.load (keys : StampKeys α) (clock span : Int) (entries : List (Entry α)) :
    Except (Fault α) (Snapshot α) :=
  match create keys clock span with
  | .error fault => .error fault
  | .ok fresh => fresh.appendAll entries

theorem DriveLog.Ordered.load_eq_ok {keys : StampKeys α} {log : DriveLog α}
    (ordered : log.Ordered keys) {entries : List (Entry α)} (arranged : log.Arranged entries)
    (clock : Int) {span : Int} (width : 0 ≤ span) :
    ∃ full, Snapshot.load keys clock span entries = .ok full ∧ full.clock = clock ∧
      ∀ stream, (full.window stream).InOrder ∧
        (full.window stream).toList = log.stamped keys stream := by
  let fresh : Snapshot α :=
    ⟨clock, .ofFn fun stream => Window.empty (keys stream) span.toNat⟩
  have window : ∀ stream, fresh.window stream = Window.empty (keys stream) span.toNat := by
    intro stream
    simp [fresh, Snapshot.window]
  have created : Snapshot.create keys clock span = .ok fresh :=
    (Snapshot.create_eq_ok_iff ..).mpr ⟨width, rfl⟩
  have start : ∀ stream, (fresh.window stream).toList = [] := by
    intro stream
    rw [window]
    rfl
  have takes : ∀ stream,
      (fresh.window stream).Takes (keys stream) (entriesOf stream entries) := by
    intro stream
    rw [arranged]
    constructor
    · rw [window]
      exact Window.empty_inOrder ..
    · rw [window]
      rfl
    · exact ordered.readable stream
    · rw [start]
      exact ordered.sorted stream
  obtain ⟨full, done, clock, windows⟩ := Snapshot.appendAll_eq_ok keys entries fresh takes
  refine ⟨full, ?_, clock, fun stream => ⟨(windows stream).1, ?_⟩⟩
  · rw [Snapshot.load, created]
    exact done
  · rw [(windows stream).2, start, arranged]
    rfl

end ManeuverRanking
