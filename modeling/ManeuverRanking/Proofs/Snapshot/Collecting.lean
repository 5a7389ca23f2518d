import Mathlib.Analysis.SpecialFunctions.Complex.Arg
import ManeuverRanking.Proofs.Candidate.Members
import ManeuverRanking.Proofs.Horizon.Offsets
import ManeuverRanking.Proofs.Snapshot.Sampling

/-!
What collecting a horizon gives. One step without a later record leaves the later steps without one
as well, so the newest record decides about the whole horizon; the records that are found are in
order, and the first step that finds none is told.
-/

namespace ManeuverRanking

variable {α β : Type}

namespace Window

def firstAfter (window : Window α β) (time : Int) : Option (Stamped β) :=
  window.toList.find? fun record => decide (time < record.stamp)

theorem isSome_firstAfter_iff (window : Window α β) (time : Int) :
    (window.firstAfter time).isSome = true ↔ window.Reaches time := by
  rw [firstAfter, List.find?_isSome]
  simp only [decide_eq_true_eq]
  rfl

namespace InOrder

variable {window : Window α β}

theorem reaches_iff_newest (inOrder : window.InOrder) (time : Int) :
    window.Reaches time ↔
      ∃ newest, window.toList.getLast? = some newest ∧ time < newest.stamp := by
  constructor
  · rintro ⟨record, member, later⟩
    have last := List.getLast?_eq_some_getLast (List.ne_nil_of_mem member)
    have bound := le_getLast_of_pairwise inOrder.sorted last member
    exact ⟨_, last, by omega⟩
  · rintro ⟨newest, last, later⟩
    exact ⟨newest, List.mem_of_getLast? last, later⟩

theorem firstAfter_mono (inOrder : window.InOrder) {early late : Int} (ordered : early ≤ late)
    {first second : Stamped β} (found : window.firstAfter early = some first)
    (found' : window.firstAfter late = some second) : first.stamp ≤ second.stamp := by
  obtain ⟨later, before, behind, split, passed⟩ := List.find?_eq_some_iff_append.mp found
  have later' := List.find?_some found'
  have member := List.mem_of_find?_eq_some found'
  have sorted := inOrder.sorted
  rw [split] at sorted member
  simp only [decide_eq_true_eq] at later'
  rcases List.mem_append.mp member with skipped | kept
  · -- A record in front of the first one is not even later than the earlier time.
    have old := passed second skipped
    simp only [Bool.not_eq_true', decide_eq_false_iff_not] at old
    omega
  · rcases List.mem_cons.mp kept with rfl | after
    · exact Int.le_refl _
    · exact (List.pairwise_cons.mp (List.pairwise_append.mp sorted).2.1).1 second after

end InOrder

end Window

/-- What a pass over some steps gives: all that is found, or the first step that finds nothing. -/
inductive Gathered (found : Nat → Option (Stamped β)) (short : Nat → Shortage) (step remaining : Nat) :
    Outcome Shortage (List β) → Prop
  | full (records : List (Stamped β))
      (each : records.map some = (List.range' step remaining).map found) :
      Gathered found short step remaining (.ready (records.map Stamped.value))
  | gap (missing : Nat) (lower : step ≤ missing) (upper : missing < step + remaining)
      (none : found missing = none)
      (before : ∀ earlier, step ≤ earlier → earlier < missing → (found earlier).isSome = true) :
      Gathered found short step remaining (.notReady (short missing))

namespace Gathered

variable {found : Nat → Option (Stamped β)} {short : Nat → Shortage} {step remaining : Nat}

theorem next {record : Stamped β} (here : found step = some record)
    {later : Outcome Shortage (List β)} (gathered : Gathered found short (step + 1) remaining later) :
    Gathered found short step (remaining + 1) (later.map (record.value :: ·)) := by
  cases gathered with
  | full records each =>
      apply Gathered.full (record :: records)
      rw [List.range'_succ, List.map_cons, List.map_cons, each, here]
  | gap missing lower upper none before =>
      apply Gathered.gap missing (by omega) (by omega) none
      intro earlier lower' upper'
      by_cases same : earlier = step
      · rw [same, here]
        rfl
      · exact before earlier (by omega) upper'

theorem found_eq {records : List (Stamped β)}
    (each : records.map some = (List.range' step remaining).map found) :
    records.length = remaining ∧
      ∀ position (inside : position < records.length),
        found (step + position) = some records[position] := by
  have lengths := congrArg List.length each
  simp only [List.length_map, List.length_range'] at lengths
  refine ⟨lengths, fun position inside => ?_⟩
  have entry := List.getElem_of_eq each (by simpa using inside)
  simpa using entry.symm

theorem isReady_iff {outcome : Outcome Shortage (List β)}
    (gathered : Gathered found short step remaining outcome) :
    outcome.isReady = true ↔
      ∀ later, step ≤ later → later < step + remaining → (found later).isSome = true := by
  cases gathered with
  | full records each =>
      obtain ⟨length, given⟩ := found_eq each
      simp only [Outcome.isReady, true_iff]
      intro later lower upper
      have here := given (later - step) (by omega)
      rw [show step + (later - step) = later by omega] at here
      rw [here]
      rfl
  | gap missing lower upper none before =>
      simp only [Outcome.isReady, Bool.false_eq_true, false_iff]
      intro all
      have present := all missing lower upper
      rw [none] at present
      cases present

end Gathered

namespace Snapshot

variable [Scalar α]

theorem yields_collectFrom {snapshot : Snapshot α} {stream : Stream} {horizon : Horizon α}
    {found : Nat → Option (Stamped (Payload α stream))} {step remaining : Nat}
    (answers : ∀ later, step ≤ later → later < step + remaining →
      snapshot.query stream later (some horizon) = .ok (found later)) :
    Yields (snapshot.collectFrom stream horizon step remaining)
      (Gathered found (.ranOut stream · horizon.steps snapshot.clock) step remaining) := by
  induction remaining generalizing step with
  | zero => exact .ok (.full [] rfl)
  | succ remaining ih =>
      rw [collectFrom, answers step (Nat.le_refl _) (by omega)]
      cases here : found step with
      | none =>
          refine .ok (.gap step (Nat.le_refl _) (by omega) here ?_)
          intro earlier lower upper
          omega
      | some record =>
          refine (ih fun later lower upper => answers later (by omega) (by omega)).map ?_
          exact fun later gathered => gathered.next here

theorem Kept.query_eq_firstAfter {span : Nat} {snapshot : Snapshot α} (kept : Kept span snapshot)
    (stream : Stream) {horizon : Horizon α} {offset : Nat → Int} (placed : horizon.StepsAt offset)
    {step : Nat} (inside : step < horizon.steps) :
    snapshot.query stream step (some horizon) =
      .ok ((snapshot.window stream).firstAfter (snapshot.clock + offset step)) := by
  have time : snapshot.stepTime horizon step = .ok (snapshot.clock + offset step) := by
    unfold stepTime
    by_cases first : step = 0
    · rw [if_pos first, first, placed.start, Int.add_zero]
    · rw [if_neg first, placed.timed step inside]
      rfl
  rw [query_eq, time]
  exact congrArg Except.ok ((kept.inOrder stream).queryAfter_eq_find? _)

theorem Kept.yields_collect {span : Nat} {snapshot : Snapshot α} (kept : Kept span snapshot)
    (stream : Stream) {horizon : Horizon α} {offset : Nat → Int} (placed : horizon.StepsAt offset) :
    Yields (snapshot.collect stream horizon)
      (Gathered (fun step => (snapshot.window stream).firstAfter (snapshot.clock + offset step))
        (.ranOut stream · horizon.steps snapshot.clock) 0 horizon.steps) := by
  apply yields_collectFrom
  intro step _ upper
  exact kept.query_eq_firstAfter stream placed (by omega)

/-- Collecting a horizon is ready exactly if the newest record of the stream is later than the last
step. Each step then gives the first record later than it, and the records are in order. Otherwise
the first step without a later record is told. -/
theorem Reachable.collect_horizon {snapshot : Snapshot α} (reached : snapshot.Reachable)
    (stream : Stream) {horizon : Horizon α} {offset : Nat → Int}
    (placed : horizon.StepsAt offset) :
    let window := snapshot.window stream
    ∃ outcome, snapshot.collect stream horizon = .ok outcome ∧
      (outcome.isReady = true ↔ ∃ newest, window.toList.getLast? = some newest ∧
        snapshot.clock + offset (horizon.steps - 1) < newest.stamp) ∧
      (∀ values, outcome = .ready values → ∃ records : List (Stamped (Payload α stream)),
        records.map Stamped.value = values ∧ records.length = horizon.steps ∧
        (∀ step (inside : step < records.length),
          window.firstAfter (snapshot.clock + offset step) = some records[step]) ∧
        records.Pairwise fun first second => first.stamp ≤ second.stamp) ∧
      ∀ cause, outcome = .notReady cause → ∃ step < horizon.steps,
        cause = .ranOut stream step horizon.steps snapshot.clock ∧
        ¬ window.Reaches (snapshot.clock + offset step) ∧
        ∀ earlier < step, window.Reaches (snapshot.clock + offset earlier) := by
  intro window
  obtain ⟨span, kept⟩ := reached.kept
  have inOrder := kept.inOrder stream
  have positive := horizon.steps_pos
  obtain ⟨outcome, done, gathered⟩ := kept.yields_collect stream placed
  refine ⟨outcome, done, ?_, ?_, ?_⟩
  · rw [gathered.isReady_iff, ← inOrder.reaches_iff_newest]
    simp only [Window.isSome_firstAfter_iff]
    constructor
    · intro all
      exact all (horizon.steps - 1) (Nat.zero_le _) (by omega)
    · intro last step _ upper
      -- Steps ascend, so what is later than the last one is later than all.
      have before := placed.ascending step (horizon.steps - 1) (by omega) (by omega)
      exact last.earlier (by omega)
  · rintro values rfl
    cases gathered with
    | full records each =>
        obtain ⟨length, given⟩ := Gathered.found_eq each
        simp only [Nat.zero_add] at given
        refine ⟨records, rfl, length, given, ?_⟩
        rw [List.pairwise_iff_getElem]
        intro first second inside inside' before
        have ordered := placed.ascending first second (by omega) (by omega)
        exact inOrder.firstAfter_mono (by omega) (given first inside) (given second inside')
  · rintro cause rfl
    cases gathered with
    | gap step lower upper none before =>
        refine ⟨step, by omega, rfl, ?_, ?_⟩
        · rw [← Window.isSome_firstAfter_iff, none]
          exact Bool.false_ne_true
        · intro earlier bound
          exact (Window.isSome_firstAfter_iff ..).mp (before earlier (Nat.zero_le _) bound)

noncomputable def lateReports : List (Entry ℝ) :=
  [⟨.steering, ⟨500000000, 1⟩⟩, ⟨.steering, ⟨500000000, 0⟩⟩, ⟨.steering, ⟨500000001, -1⟩⟩]

theorem lateReports_collect_horizon : ∃ snapshot, load recordStamp 0 0 lateReports = .ok snapshot ∧
    snapshot.collect .steering (Horizon.halves 2 (by decide)) =
      .ok (.ready [⟨500000000, 1⟩, ⟨500000001, -1⟩]) ∧
    snapshot.collect .steering (Horizon.halves 3 (by decide)) =
      .ok (.notReady (.ranOut .steering 2 3 0)) := by
  obtain ⟨snapshot, loaded, clock, listed⟩ : ∃ snapshot, load recordStamp 0 0 lateReports =
      .ok snapshot ∧ snapshot.clock = 0 ∧ (snapshot.window .steering).toList =
        [⟨500000000, ⟨500000000, 1⟩⟩, ⟨500000000, ⟨500000000, 0⟩⟩,
          ⟨500000001, ⟨500000001, -1⟩⟩] :=
    ⟨_, rfl, rfl, rfl⟩
  have reached := Reachable.load loaded
  refine ⟨snapshot, loaded, ?_, ?_⟩
  · obtain ⟨offset, placed, near⟩ := (Horizon.halves 2 (by decide)).exists_stepsAt
    obtain ⟨outcome, done, ready, full, -⟩ := reached.collect_horizon .steering placed
    rw [clock, listed] at ready
    have valid : outcome.isReady = true :=
      ready.mpr ⟨_, rfl, by rw [Horizon.halves_offset (near _)]; decide⟩
    cases outcome with
    | notReady cause => cases valid
    | ready values =>
        obtain ⟨records, rfl, length, given, -⟩ := full values rfl
        match records, length with
        | [first, second], _ =>
            have early := given 0 Nat.two_pos
            have late := given 1 Nat.one_lt_two
            rw [Horizon.halves_offset (near _), Window.firstAfter, clock, listed] at early late
            cases early
            cases late
            exact done
  · obtain ⟨offset, placed, near⟩ := (Horizon.halves 3 (by decide)).exists_stepsAt
    obtain ⟨outcome, done, ready, -, short⟩ := reached.collect_horizon .steering placed
    cases outcome with
    | ready values =>
        obtain ⟨newest, last, later⟩ := ready.mp rfl
        rw [listed] at last
        cases last
        rw [clock, Horizon.halves_offset (near _)] at later
        exact absurd later (by decide)
    | notReady cause =>
        obtain ⟨step, inside, rfl, missed, -⟩ := short cause rfl
        have late : 2 ≤ step := by
          simp only [Window.Reaches, listed, clock, Horizon.halves_offset (near _), List.exists_mem_cons_iff]
            at missed
          omega
        have last : step = 2 := le_antisymm (Nat.le_of_lt_succ inside) late
        rw [done, clock, last]
        rfl

end Snapshot

end ManeuverRanking
