import ManeuverRanking.Proofs.Delay.Window
import ManeuverRanking.Proofs.Snapshot

/-!
Snapshots of a drive recorded some time later. What is read off them are the same records, some time
later.
-/

namespace ManeuverRanking

namespace Snapshot

variable {α : Type}

def delay (time : Int) (snapshot : Snapshot α) : Snapshot α :=
  ⟨snapshot.clock + time,
    snapshot.windows.map fun stream => Window.delay time (Payload.delay time stream)⟩

@[simp] theorem window_delay (time : Int) (snapshot : Snapshot α) (stream : Stream) :
    (snapshot.delay time).window stream =
      (snapshot.window stream).delay time (Payload.delay time stream) :=
  PerStream.get_map ..

theorem put_delay (time : Int) (snapshot : Snapshot α) (stream : Stream)
    (window : Window α (Payload α stream)) :
    (snapshot.delay time).put stream (window.delay time (Payload.delay time stream)) =
      (snapshot.put stream window).delay time := by
  apply ext_window
  · rfl
  · intro other
    by_cases same : other = stream
    · subst other
      simp only [window_put_same, window_delay]
    · simp only [window_put_other _ _ same, window_delay]

structure Timed (good : (stream : Stream) → Payload α stream → Prop) (snapshot : Snapshot α) :
    Prop where
  sameKey : ∀ stream, (snapshot.window stream).key = recordStamp stream
  good : ∀ stream, ∀ record ∈ (snapshot.window stream).records, good stream record.value

variable {good : (stream : Stream) → Payload α stream → Prop} {snapshot : Snapshot α}

theorem create_delay (good : (stream : Stream) → Payload α stream → Prop)
    (time clock span : Int) :
    Alike (fun snapshot snapshot' => snapshot.Timed good ∧ snapshot' = snapshot.delay time)
      (create recordStamp clock span) (create recordStamp (clock + time) span) := by
  unfold create
  split
  · rfl
  · refine ⟨⟨fun stream => ?_, fun stream record member => ?_⟩, ?_⟩
    · simp [window, Window.empty]
    · simp [window, Window.empty] at member
    · apply ext_window
      · rfl
      · intro stream
        simp [window, Window.empty, delay, Window.delay]

theorem append_delay (timed : snapshot.Timed good) (time : Int) (stream : Stream)
    {value : Payload α stream} (fits : good stream value) :
    Alike (fun placed placed' => placed.1.Timed good ∧ placed'.1 = placed.1.delay time)
      (snapshot.append stream value)
      ((snapshot.delay time).append stream (Payload.delay time stream value)) := by
  have placing := (snapshot.window stream).append_delay time (Payload.delay time stream) value
    (by rw [timed.sameKey]; exact recordStamp_delay time stream value)
  rw [append_eq, append_eq, window_delay]
  apply (placing.of_left fun placed appended => Window.append_eq_ok appended).map
  rintro ⟨next, record⟩ _ ⟨⟨same, sameKey, records⟩, rfl⟩
  constructor
  · constructor
    · intro other
      by_cases here : other = stream
      · subst other
        rw [window_put_same, sameKey]
        exact timed.sameKey _
      · rw [window_put_other _ _ here]
        exact timed.sameKey other
    · intro other found member
      by_cases here : other = stream
      · subst other
        rw [window_put_same, records, Array.mem_push] at member
        rcases member with old | rfl
        · exact timed.good _ found old
        · rw [same]
          exact fits
      · rw [window_put_other _ _ here] at member
        exact timed.good other found member
  · exact put_delay time snapshot stream next

theorem advance_delay (time step : Int) (snapshot : Snapshot α) :
    (snapshot.delay time).advance step = (snapshot.advance step).delay time := by
  have clock : snapshot.clock + time + step = snapshot.clock + step + time := by omega
  apply ext_window
  · exact clock
  · intro stream
    simp only [window_advance, window_delay]
    change (Window.evict _ (snapshot.clock + time + step)).1 = _
    rw [clock, Window.evict_delay]

theorem Timed.advance (timed : snapshot.Timed good) (step : Int) :
    (snapshot.advance step).Timed good := by
  constructor
  · intro stream
    rw [window_advance]
    exact timed.sameKey stream
  · intro stream record member
    rw [window_advance] at member
    apply timed.good stream record
    obtain ⟨position, bound, same⟩ := Array.mem_extract_iff_getElem.mp member
    rw [← same]
    exact Array.getElem_mem _

theorem isReady_delay (time : Int) (snapshot : Snapshot α) :
    (snapshot.delay time).isReady = snapshot.isReady := by
  simp only [isReady, window_delay, Window.isReady_delay]

theorem current_delay (time : Int) (snapshot : Snapshot α) (stream : Stream) :
    (snapshot.delay time).current stream =
      (snapshot.current stream).map (Stamped.delay time (Payload.delay time stream)) := by
  rw [current, window_delay]
  exact Window.queryAfter_delay ..

theorem Timed.queryAfter (timed : snapshot.Timed good) {stream : Stream} {time : Int}
    {record : Stamped (Payload α stream)}
    (found : (snapshot.window stream).queryAfter time = some record) :
    good stream record.value :=
  timed.good stream record (Array.mem_of_getElem? found)

variable [Scalar α]

def Delayed (good : (stream : Stream) → Payload α stream → Prop) (time : Int) (stream : Stream)
    (values values' : List (Payload α stream)) : Prop :=
  (∀ value ∈ values, good stream value) ∧ values' = values.map (Payload.delay time stream)

theorem query_delay (time : Int) (snapshot : Snapshot α) (stream : Stream) (step : Int)
    (horizon : Option (Horizon α)) :
    (snapshot.delay time).query stream step horizon =
      (snapshot.query stream step horizon).map
        (Option.map (Stamped.delay time (Payload.delay time stream))) := by
  unfold query
  split
  · simp only [current_delay, Except.map]
  · cases horizon with
    | none => rfl
    | some horizon =>
        cases timed : horizon.stepOffset step with
        | error fault => simp only [timed, bind, Except.bind, Except.map]
        | ok offset =>
            have moved : (snapshot.delay time).clock + offset = snapshot.clock + offset + time := by
              simp only [delay]
              omega
            simp only [timed, bind, Except.bind, pure, Except.pure, Except.map, window_delay, moved,
              Window.queryAfter_delay]

theorem Timed.query (timed : snapshot.Timed good) {stream : Stream} {step : Int}
    {horizon : Option (Horizon α)} {record : Stamped (Payload α stream)}
    (found : snapshot.query stream step horizon = .ok (some record)) :
    good stream record.value := by
  unfold Snapshot.query at found
  split at found
  · exact timed.queryAfter (Except.ok.inj found)
  · cases horizon with
    | none => cases found
    | some horizon =>
        simp only [bind_eq_ok_iff, pure, Except.pure, Except.ok.injEq] at found
        obtain ⟨offset, -, found⟩ := found
        exact timed.queryAfter found

theorem collectFrom_delay (timed : snapshot.Timed good) (time : Int) (stream : Stream)
    (horizon : Horizon α) (step remaining : Nat) :
    Alike (Outcome.Alike (Delayed good time stream))
      (snapshot.collectFrom stream horizon step remaining)
      ((snapshot.delay time).collectFrom stream horizon step remaining) := by
  induction remaining generalizing step with
  | zero =>
      refine ⟨?_, rfl⟩
      intro value member
      cases member
  | succ remaining ih =>
      have asked : Alike (fun record? record?' =>
          (∀ record, record? = some record → good stream record.value) ∧
            record?' = record?.map (Stamped.delay time (Payload.delay time stream)))
          (snapshot.query stream step (some horizon))
          ((snapshot.delay time).query stream step (some horizon)) := by
        rw [query_delay]
        cases found : snapshot.query stream step (some horizon) with
        | error fault => rfl
        | ok record? =>
            refine ⟨?_, rfl⟩
            rintro record rfl
            exact timed.query found
      simp only [collectFrom]
      apply asked.bind
      rintro record? _ ⟨fits, rfl⟩
      cases record? with
      | none => rfl
      | some record =>
          apply (ih (step + 1)).bind
          intro later later' alike
          rcases alike.cases_on with
            ⟨_, _, rfl, rfl, same⟩ | ⟨values, _, rfl, rfl, known, rfl⟩
          · exact same
          · refine ⟨?_, rfl⟩
            intro value member
            rcases List.mem_cons.mp member with rfl | after
            · exact fits record rfl
            · exact known value after

theorem collect_delay (timed : snapshot.Timed good) (time : Int) (stream : Stream)
    (horizon : Horizon α) :
    Alike (Outcome.Alike (Delayed good time stream)) (snapshot.collect stream horizon)
      ((snapshot.delay time).collect stream horizon) :=
  collectFrom_delay timed time stream horizon 0 horizon.steps

end Snapshot

end ManeuverRanking
