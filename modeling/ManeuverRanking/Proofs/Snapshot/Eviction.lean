import ManeuverRanking.Proofs.Candidate.Members

/-!
Eviction as seen by those who sample a snapshot. They look for records later than the clock or later
than a step ahead of it, and eviction only drops records older than the clock. What an eviction does
is thus seen in the windows alone, and an eviction at a later time makes up for any earlier one.
-/

namespace ManeuverRanking

variable {α β : Type}

namespace Window.InOrder

variable {window : Window α β}

theorem queryAfter_evict (inOrder : window.InOrder) {now time : Int} (ahead : now ≤ time) :
    (window.evict now).1.queryAfter time = window.queryAfter time := by
  rw [(inOrder.evict_inOrder now).queryAfter_eq_find?, inOrder.queryAfter_eq_find?,
    inOrder.evict_toList, List.find?_filter]
  congr 1
  funext record
  by_cases later : time < record.stamp
  · have kept : now ≤ record.stamp := by omega
    simp [later, kept]
  · simp [later]

theorem evict_evict (inOrder : window.InOrder) {now later : Int} (ordered : now ≤ later) :
    ((window.evict now).1.evict later).1 = (window.evict later).1 := by
  have first := inOrder.evict_inOrder now
  apply InOrder.eq_of_toList (first.evict_inOrder later) (inOrder.evict_inOrder later) rfl rfl
  rw [first.evict_toList, inOrder.evict_toList, inOrder.evict_toList, List.filter_filter]
  apply List.filter_congr
  intro record _
  by_cases kept : later ≤ record.stamp
  · have stayed : now ≤ record.stamp := by omega
    simp [kept, stayed]
  · simp [kept]

theorem isReady_of_evict (inOrder : window.InOrder) {now : Int}
    (ready : (window.evict now).1.isReady = true) : window.isReady = true := by
  obtain ⟨oldest, newest, first, last, spread⟩ :=
    (inOrder.evict_inOrder now).isReady_iff.mp ready
  have kept {record : Stamped β} (member : record ∈ (window.evict now).1.toList) :
      record ∈ window.toList := by
    rw [inOrder.evict_toList] at member
    exact (List.mem_filter.mp member).1
  exact inOrder.isReady_of_mem (kept (List.mem_of_mem_head? first))
    (kept (List.mem_of_getLast? last)) spread

end Window.InOrder

namespace Snapshot

@[simp] theorem window_evict (snapshot : Snapshot α) (stream : Stream) :
    snapshot.evict.window stream = ((snapshot.window stream).evict snapshot.clock).1 := by
  simp only [evict, window, PerStream.get_map]

/-- Two snapshots of one clock find the same records from there on. -/
structure Agree (left right : Snapshot α) : Prop where
  clock : left.clock = right.clock
  finds : ∀ stream, ∀ time ≥ right.clock,
    (left.window stream).queryAfter time = (right.window stream).queryAfter time

namespace Agree

variable {left right : Snapshot α}

theorem current (agree : Agree left right) (stream : Stream) :
    left.current stream = right.current stream := by
  rw [Snapshot.current, agree.clock]
  exact agree.finds stream right.clock (Int.le_refl _)

theorem seed (agree : Agree left right) : left.seed = right.seed := by
  unfold Snapshot.seed
  simp only [agree.current, agree.clock]

variable [Scalar α]

theorem query (agree : Agree left right) (stream : Stream) {horizon : Option (Horizon α)}
    (forward : ∀ known ∈ horizon, known.Forward) (step : Nat) :
    left.query stream step horizon = right.query stream step horizon := by
  unfold Snapshot.query
  split
  · rw [agree.current]
  · cases horizon with
    | none => rfl
    | some horizon =>
        apply bind_congr_of_ok
        intro offset timed
        have ahead := forward horizon rfl step offset timed
        rw [agree.clock, agree.finds stream _ (by omega)]

theorem collectFrom (agree : Agree left right) (stream : Stream) {horizon : Horizon α}
    (forward : horizon.Forward) (step remaining : Nat) :
    left.collectFrom stream horizon step remaining =
      right.collectFrom stream horizon step remaining := by
  have known : ∀ known ∈ some horizon, known.Forward := by simpa using forward
  induction remaining generalizing step with
  | zero => rfl
  | succ remaining ih =>
      simp only [Snapshot.collectFrom, agree.query stream known, ih, agree.clock]

theorem collect (agree : Agree left right) (stream : Stream) {horizon : Horizon α}
    (forward : horizon.Forward) : left.collect stream horizon = right.collect stream horizon :=
  agree.collectFrom stream forward 0 horizon.steps

theorem gather (agree : Agree left right) {builder : Builder α}
    (forward : builder.horizon.Forward) : builder.gather left = builder.gather right := by
  unfold Builder.gather Snapshot.driven
  simp only [agree.seed, agree.collect _ forward]

theorem build (agree : Agree left right) {builder : Builder α}
    (forward : builder.horizon.Forward) : builder.build left = builder.build right := by
  unfold Builder.build
  rw [agree.gather forward, agree.clock]

end Agree

namespace Kept

variable {span : Nat} {snapshot : Snapshot α}

theorem agree_evict (kept : Kept span snapshot) : Agree snapshot.evict snapshot := by
  constructor
  · rfl
  · intro stream time ahead
    rw [window_evict]
    exact (kept.inOrder stream).queryAfter_evict ahead

theorem isReady_of_evict (kept : Kept span snapshot) (ready : snapshot.evict.isReady = true) :
    snapshot.isReady = true := by
  unfold isReady at ready ⊢
  rw [List.all_eq_true] at ready ⊢
  intro stream member
  have left := ready stream member
  rw [window_evict] at left
  exact (kept.inOrder stream).isReady_of_evict left

theorem evict_evict (kept : Kept span snapshot) : snapshot.evict.evict = snapshot.evict := by
  have clock : snapshot.evict.evict.clock = snapshot.evict.clock := rfl
  apply ext_window clock
  intro stream
  rw [window_evict, window_evict]
  exact (kept.inOrder stream).evict_evict (Int.le_refl _)

theorem advance_advance (kept : Kept span snapshot) (first : Int) {second : Int}
    (forward : 0 ≤ second) :
    (snapshot.advance first).advance second = snapshot.advance (first + second) := by
  have arrives : snapshot.clock + first + second = snapshot.clock + (first + second) :=
    Int.add_assoc ..
  apply ext_window arrives
  intro stream
  simp only [window_advance, advance_clock]
  rw [(kept.inOrder stream).evict_evict (by omega), arrives]

end Kept

/-- Whoever samples a snapshot, collects a horizon or builds candidates gets the same after an
eviction. An eviction makes no snapshot ready, a second one does nothing, and of two advances the
second one alone decides what is evicted unless it goes back. -/
theorem Reachable.evict_invisible {snapshot : Snapshot Float} (reached : snapshot.Reachable) :
    (∀ stream (step : Int) horizon, 0 ≤ step →
      snapshot.evict.query stream step horizon = snapshot.query stream step horizon) ∧
    (∀ stream horizon, snapshot.evict.collect stream horizon = snapshot.collect stream horizon) ∧
    (∀ builder : Builder Float, builder.build snapshot.evict = builder.build snapshot) ∧
    (snapshot.evict.isReady = true → snapshot.isReady = true) ∧
    snapshot.evict.evict = snapshot.evict ∧
    ∀ first second, 0 ≤ second →
      (snapshot.advance first).advance second = snapshot.advance (first + second) := by
  obtain ⟨span, kept⟩ := reached.kept
  have agree := kept.agree_evict
  refine ⟨?_, ?_, ?_, kept.isReady_of_evict, kept.evict_evict, kept.advance_advance⟩
  · intro stream step horizon ahead
    lift step to Nat using ahead
    exact agree.query stream (fun known _ => known.forward) step
  · exact fun stream horizon => agree.collect stream horizon.forward
  · exact fun builder => agree.build builder.horizon.forward

def parkedDrive : DriveLog Float where
  name := "parked"
  records :=
    let pose : Pose Float := ⟨⟨0.0, 0.0, 0.0⟩, ⟨1.0, 0.0, 0.0, 0.0⟩⟩
    { transforms := [⟨[⟨1, "map", "base_link", pose⟩]⟩]
      odometry := [⟨1, pose, [0.0, 0.0, 0.0]⟩]
      objects := [⟨1, []⟩]
      acceleration := [⟨1, 0.0, 0.0⟩]
      steering := [⟨1, 0.0⟩]
      plan := [⟨1, [⟨pose, 0.0, 0.0, 0.0, 0.0⟩]⟩] }

def ofParked : Except (Fault Float) (Builder Float) := do
  let horizon ← Horizon.of 1 (0.25 : Float)
  let scorer ← Scorer.of ScoreSettings.standard
  return (Builder.create horizon ⟨Extractor.standardWheelBase, horizon⟩ scorer
    (some (Sampler.scripted [])) .standard true none).1

def parkedBehind : List (Entry Float) :=
  ⟨.steering, ⟨-3, 0.0⟩⟩ :: ⟨.steering, ⟨0, 0.0⟩⟩ :: parkedDrive.entries

theorem parkedBehind_evict : ∃ builder snapshot ranking, ofParked = .ok builder ∧
    load recordStamp 0 3 parkedBehind = .ok snapshot ∧
    snapshot.sizes = [1, 1, 1, 1, 3, 1] ∧ snapshot.evict.sizes = [1, 1, 1, 1, 2, 1] ∧
    (builder.build snapshot).outcome = .ok (.ready ranking) ∧
    (builder.build snapshot.evict).outcome = .ok (.ready ranking) ∧
    snapshot.evict.query .steering 0 none = snapshot.query .steering 0 none ∧
    snapshot.evict.evict = snapshot.evict ∧
    (snapshot.advance (-3)).advance 4 = snapshot.advance 1 := by
  have evaluated : ofParked.toOption.bind (fun builder =>
      (load recordStamp 0 3 parkedBehind).toOption.bind fun snapshot =>
        (builder.build snapshot).outcome.toOption.map fun outcome =>
          (snapshot.sizes, snapshot.evict.sizes, outcome.isReady)) =
      some ([1, 1, 1, 1, 3, 1], [1, 1, 1, 1, 2, 1], true) := by
    decide +kernel
  simp only [Option.bind_eq_some_iff, toOption_eq_some_iff] at evaluated
  obtain ⟨builder, made, snapshot, loaded, told⟩ := evaluated
  obtain ⟨outcome, found, told⟩ := exists_ok_of_map told
  simp only [Prod.mk.injEq] at told
  obtain ⟨before, after, ready⟩ := told
  obtain ⟨samples, -, builds, -, once, advances⟩ := (Reachable.load loaded).evict_invisible
  cases outcome with
  | notReady cause => cases ready
  | ready ranking =>
      refine ⟨builder, snapshot, ranking, made, loaded, before, after, found, ?_,
        samples .steering 0 none (Int.le_refl 0), once, advances (-3) 4 (by decide)⟩
      rw [builds, found]

end Snapshot

end ManeuverRanking
