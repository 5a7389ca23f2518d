import Mathlib.Data.Set.Card
import ManeuverRanking.Analysis.Batch
import ManeuverRanking.Proofs.Analysis.Loop
import ManeuverRanking.Proofs.Candidate.Stages

/-!
The summary of a batch. It counts the distinct times in the table of all drives, so it counts ticks
only as long as no two of them are told at one time. Drives that overlap lose ticks.
-/

namespace ManeuverRanking

variable {α : Type}

theorem nodup_eraseDups (times : List Int) : times.eraseDups.Nodup := by
  induction length : times.length using Nat.strongRecOn generalizing times with
  | ind size ih =>
      cases times with
      | nil => exact List.nodup_nil
      | cons first rest =>
          have shorter := List.length_filter_le (fun time => !time == first) rest
          rw [List.eraseDups_cons, List.nodup_cons]
          constructor
          · simp
          · exact ih _ (by rw [← length, List.length_cons]; omega) _ rfl

theorem length_eraseDups (times : List Int) :
    times.eraseDups.length = {time | time ∈ times}.ncard := by
  have same : {time | time ∈ times} = (times.eraseDups.toFinset : Set Int) := by
    ext time
    simp
  rw [same, Set.ncard_coe_finset, List.toFinset_card_of_nodup (nodup_eraseDups times)]

theorem length_eraseDups_le (times : List Int) : times.eraseDups.length ≤ times.length :=
  List.Nodup.length_le_of_subset (nodup_eraseDups times) fun _ => List.mem_eraseDups.mp

theorem length_eraseDups_eq_iff (times : List Int) :
    times.eraseDups.length = times.length ↔ times.Nodup := by
  have same : times.eraseDups.toFinset = times.toFinset := by
    ext time
    simp
  rw [← List.toFinset_card_of_nodup (nodup_eraseDups times), same]
  exact Multiset.toFinset_card_eq_card_iff_nodup

namespace Table

def times (table : Table α) : Set Int :=
  {time | ∃ row ∈ table.rows, row.cell .timestamp = .integer time}

def validTimes (table : Table α) : Set Int :=
  {time | ∃ row ∈ table.rows,
    row.cell .timestamp = .integer time ∧ row.cell .valid = .flag true}

theorem validTimes_subset (table : Table α) : table.validTimes ⊆ table.times :=
  fun _ ⟨row, member, stamp, _⟩ => ⟨row, member, stamp⟩

end Table

variable [Scalar α]

theorem RunTick.cell_valid {tick : RunTick α} {logName : String} {row : Row α}
    (member : row ∈ tick.rows logName) : row.cell .valid = .flag tick.isValid := by
  obtain ⟨bare, inside, rfl⟩ := List.mem_map.mp member
  cases outcome : tick.outcome with
  | ready analysis =>
      simp only [outcome] at inside
      obtain ⟨place, -, rfl⟩ := List.mem_map.mp inside
      rfl
  | notReady cause =>
      simp only [outcome, List.mem_singleton] at inside
      subst inside
      rfl

namespace Run

variable {settings : RunSettings α} {log : DriveLog α} {run : Run α}

theorem rows_ne_nil_of_ofLog (ran : ofLog settings log = .ok run) {tick : RunTick α}
    (member : tick ∈ run.ticks) : tick.rows run.logName ≠ [] := by
  intro none
  rw [RunTick.rows, List.map_eq_nil_iff] at none
  cases outcome : tick.outcome with
  | notReady cause => simp [outcome] at none
  | ready analysis =>
      obtain ⟨setup⟩ := exists_setup ran
      obtain ⟨count, found⟩ := List.mem_iff_getElem?.mp member
      have valid : tick.isValid = true := by rw [RunTick.isValid, outcome, Outcome.isReady]
      obtain ⟨state, ranking, -, built, ready⟩ := setup.build_of_getElem? ran found valid
      simp only [ready, Analysis.rows, List.map_eq_nil_iff, List.zipIdx_eq_nil_iff] at none
      exact Builder.build_ne_nil built none

theorem clock_of_getElem? (setup : Setup settings log) (ran : ofLog settings log = .ok run)
    {count : Nat} {tick : RunTick α} (found : run.ticks[count]? = some tick) :
    tick.clock = setup.start + (count + 1) * setup.step := by
  obtain ⟨before, next, reached, -, advanced, rfl⟩ := setup.exists_of_getElem? ran found
  obtain ⟨moved, step⟩ := RunState.after_clock reached
  have start : setup.first.clock = setup.start := rfl
  have same : setup.first.analyzer.step = setup.step := rfl
  rw [RunState.advance_tick_clock advanced, moved, step, start, same, Int.add_mul]
  omega

theorem nodup_clocks (ran : ofLog settings log = .ok run) : run.clocks.Nodup := by
  obtain ⟨setup⟩ := exists_setup ran
  rw [List.nodup_iff_getElem?_ne_getElem?]
  intro first second earlier inside same
  have bound : second < run.ticks.length := by rwa [clocks, List.length_map] at inside
  have here := clock_of_getElem? setup ran (List.getElem?_eq_getElem (Nat.lt_trans earlier bound))
  have there := clock_of_getElem? setup ran (List.getElem?_eq_getElem bound)
  rw [clocks, List.getElem?_map, List.getElem?_map,
    List.getElem?_eq_getElem (Nat.lt_trans earlier bound), List.getElem?_eq_getElem bound,
    Option.map_some, Option.map_some, Option.some.injEq, here, there] at same
  have steps := Int.eq_of_mul_eq_mul_right (Int.ne_of_gt setup.step_pos) (Int.add_left_cancel same)
  omega

end Run

namespace Batch

variable {settings : RunSettings α} {archive : LogArchive α} {batch : Batch α}

def tell (batch : Batch α) (run : Run α) (tick : RunTick α) : Int :=
  batch.timeKind.hold α (run.timeKind.hold α tick.clock)

def told (batch : Batch α) (counted : RunTick α → Bool) : List Int :=
  batch.runs.flatMap fun run => (run.ticks.filter counted).map (batch.tell run)

def count (batch : Batch α) (counted : RunTick α → Bool) : Nat :=
  (batch.runs.map fun run => (run.ticks.filter counted).length).sum

def tally (batch : Batch α) : Summary :=
  ⟨batch.count fun _ => true, batch.count RunTick.isValid, batch.count fun tick => !tick.isValid⟩

theorem length_told (batch : Batch α) (counted : RunTick α → Bool) :
    (batch.told counted).length = batch.count counted := by
  simp [told, count, List.length_flatMap]

theorem mem_told_iff {counted : RunTick α → Bool} {time : Int} :
    time ∈ batch.told counted ↔ ∃ run ∈ batch.runs, ∃ tick ∈ run.ticks,
      counted tick = true ∧ batch.tell run tick = time := by
  simp [told, and_assoc]

theorem told_sublist (batch : Batch α) (counted : RunTick α → Bool) :
    (batch.told counted).Sublist (batch.told fun _ => true) := by
  apply List.Sublist.flatMap_right
  intro run _
  rw [List.filter_true]
  exact List.filter_sublist.map _

omit [Scalar α] in
theorem count_add_count_not (batch : Batch α) (counted : RunTick α → Bool) :
    batch.count counted + batch.count (fun tick => !counted tick) = batch.count fun _ => true := by
  unfold count
  induction batch.runs with
  | nil => rfl
  | cons run rest ih =>
      have parts := List.length_eq_length_filter_add (l := run.ticks) counted
      simp only [List.map_cons, List.sum_cons, List.filter_true] at ih ⊢
      omega

theorem ofLog_of_ofArchive (ran : ofArchive settings archive = .ok batch) {run : Run α}
    (member : run ∈ batch.runs) : ∃ log, Run.ofLog settings log = .ok run := by
  simp only [ofArchive, bind_eq_ok_iff, pure, Except.pure, Except.ok.injEq] at ran
  obtain ⟨runs, mapped, rfl⟩ := ran
  obtain ⟨entry, -, done⟩ := exists_of_mem_mapM mapped member
  obtain ⟨log, -, ran⟩ := (bind_eq_ok_iff ..).mp done
  exact ⟨log, ran⟩

theorem mem_table_rows_iff {row : Row α} : row ∈ batch.table.rows ↔ ∃ run ∈ batch.runs,
    ∃ tick ∈ run.ticks, ∃ bare ∈ tick.rows run.logName,
      (bare.holdTime run.timeKind).holdTime batch.timeKind = row := by
  simp only [table, Table.ofRows, Run.rows, List.mem_map, List.mem_flatMap]
  constructor
  · rintro ⟨_, ⟨run, here, bare, ⟨tick, there, inside⟩, rfl⟩, rfl⟩
    exact ⟨run, here, tick, there, bare, inside, rfl⟩
  · rintro ⟨run, here, tick, there, bare, inside, rfl⟩
    exact ⟨_, ⟨run, here, bare, ⟨tick, there, inside⟩, rfl⟩, rfl⟩

theorem cells_of_ofArchive (ran : ofArchive settings archive = .ok batch) {run : Run α}
    (here : run ∈ batch.runs) {tick : RunTick α} (there : tick ∈ run.ticks) {bare : Row α}
    (inside : bare ∈ tick.rows run.logName) :
    let row := (bare.holdTime run.timeKind).holdTime batch.timeKind
    row.cell .timestamp = .integer (batch.tell run tick) ∧ row.cell .valid = .flag tick.isValid := by
  obtain ⟨log, analyzed⟩ := ofLog_of_ofArchive ran here
  have stamp := (Run.timely_of_ofLog analyzed tick there).cell_timestamp inside
  constructor
  · exact Row.cell_mapTime_timestamp _ (Row.cell_mapTime_timestamp _ stamp)
  · rw [Row.holdTime_eq_mapTime, Row.cell_mapTime_other _ _ (by decide), Row.holdTime_eq_mapTime,
      Row.cell_mapTime_other _ _ (by decide)]
    exact RunTick.cell_valid inside

theorem table_times (ran : ofArchive settings archive = .ok batch) :
    batch.table.times = {time | time ∈ batch.told fun _ => true} := by
  ext time
  simp only [Table.times, Set.mem_ofPred_eq, mem_table_rows_iff, mem_told_iff, true_and]
  constructor
  · rintro ⟨_, ⟨run, here, tick, there, bare, inside, rfl⟩, stamp⟩
    obtain ⟨told, -⟩ := cells_of_ofArchive ran here there inside
    exact ⟨run, here, tick, there, Cell.integer.inj (told.symm.trans stamp)⟩
  · rintro ⟨run, here, tick, there, rfl⟩
    obtain ⟨log, analyzed⟩ := ofLog_of_ofArchive ran here
    obtain ⟨bare, inside⟩ := List.exists_mem_of_ne_nil _ (Run.rows_ne_nil_of_ofLog analyzed there)
    exact ⟨_, ⟨run, here, tick, there, bare, inside, rfl⟩,
      (cells_of_ofArchive ran here there inside).1⟩

theorem table_validTimes (ran : ofArchive settings archive = .ok batch) :
    batch.table.validTimes = {time | time ∈ batch.told RunTick.isValid} := by
  ext time
  simp only [Table.validTimes, Set.mem_ofPred_eq, mem_table_rows_iff, mem_told_iff]
  constructor
  · rintro ⟨_, ⟨run, here, tick, there, bare, inside, rfl⟩, stamp, valid⟩
    obtain ⟨told, marked⟩ := cells_of_ofArchive ran here there inside
    exact ⟨run, here, tick, there, Cell.flag.inj (marked.symm.trans valid),
      Cell.integer.inj (told.symm.trans stamp)⟩
  · rintro ⟨run, here, tick, there, valid, rfl⟩
    obtain ⟨log, analyzed⟩ := ofLog_of_ofArchive ran here
    obtain ⟨bare, inside⟩ := List.exists_mem_of_ne_nil _ (Run.rows_ne_nil_of_ofLog analyzed there)
    obtain ⟨told, marked⟩ := cells_of_ofArchive ran here there inside
    exact ⟨_, ⟨run, here, tick, there, bare, inside, rfl⟩, told, valid ▸ marked⟩

theorem summary_eq_ok (ticked : ∃ run ∈ batch.runs, run.ticks ≠ []) :
    batch.summary = .ok ⟨(batch.told fun _ => true).eraseDups.length,
      (batch.told RunTick.isValid).eraseDups.length,
      (batch.told fun _ => true).eraseDups.length -
        (batch.told RunTick.isValid).eraseDups.length⟩ := by
  obtain ⟨run, here, some⟩ := ticked
  obtain ⟨tick, there⟩ := List.exists_mem_of_ne_nil _ some
  have told : batch.tell run tick ∈ (batch.told fun _ => true).eraseDups :=
    List.mem_eraseDups.mpr (mem_told_iff.mpr ⟨run, here, tick, there, rfl, rfl⟩)
  exact if_neg (Nat.ne_of_gt (List.length_pos_of_mem told))

theorem told_eq_clocks (apart : ∀ run ∈ batch.runs, ¬ run.Straddles)
    (exact : batch.timeKind ≠ .rounded) :
    (batch.told fun _ => true) = batch.runs.flatMap Run.clocks := by
  apply List.flatMap_congr
  intro run here
  have kept : run.timeKind ≠ .rounded :=
    fun kind => apart run here (run.timeKind_eq_rounded_iff.mp kind)
  rw [List.filter_true, Run.clocks]
  apply List.map_congr_left
  intro tick _
  rw [tell, TimeKind.hold_eq_self kept, TimeKind.hold_eq_self exact]

theorem summary_eq_ncard (ran : ofArchive settings archive = .ok batch)
    (ticked : ∃ run ∈ batch.runs, run.ticks ≠ []) :
    batch.summary = .ok ⟨batch.table.times.ncard, batch.table.validTimes.ncard,
      (batch.table.times \ batch.table.validTimes).ncard⟩ := by
  have finite : batch.table.times.Finite := by
    rw [table_times ran]
    exact List.finite_toSet _
  have skipped := Set.ncard_sdiff_add_ncard_of_subset batch.table.validTimes_subset finite
  rw [summary_eq_ok ticked, length_eraseDups, length_eraseDups, ← table_times ran,
    ← table_validTimes ran]
  congr
  omega

theorem skipped_le (ran : ofArchive settings archive = .ok batch) :
    (batch.table.times \ batch.table.validTimes).ncard ≤ batch.count fun tick => !tick.isValid := by
  rw [← length_told]
  apply Nat.le_trans _ (length_eraseDups_le _)
  rw [length_eraseDups]
  apply Set.ncard_le_ncard _ (List.finite_toSet _)
  rintro time ⟨any, invalid⟩
  rw [table_times ran] at any
  obtain ⟨run, here, tick, there, -, told⟩ := mem_told_iff.mp any
  refine mem_told_iff.mpr ⟨run, here, tick, there, ?_, told⟩
  rw [Bool.not_eq_true', ← Bool.not_eq_true]
  intro valid
  apply invalid
  rw [table_validTimes ran]
  exact mem_told_iff.mpr ⟨run, here, tick, there, valid, told⟩

theorem summary_eq_tally_iff (ticked : ∃ run ∈ batch.runs, run.ticks ≠ []) :
    batch.summary = .ok batch.tally ↔ (batch.told fun _ => true).Nodup := by
  have all := length_eraseDups_eq_iff (batch.told fun _ => true)
  have valid := length_eraseDups_eq_iff (batch.told RunTick.isValid)
  have parts := batch.count_add_count_not RunTick.isValid
  rw [length_told] at all valid
  rw [summary_eq_ok ticked, Except.ok.injEq, tally, Summary.mk.injEq]
  constructor
  · rintro ⟨evaluated, -⟩
    exact all.mp evaluated
  · intro distinct
    have evaluated := all.mpr distinct
    have successful := valid.mpr ((batch.told_sublist RunTick.isValid).nodup distinct)
    refine ⟨evaluated, successful, ?_⟩
    omega

theorem nodup_clocks_iff (ran : ofArchive settings archive = .ok batch) :
    (batch.runs.flatMap Run.clocks).Nodup ↔
      batch.runs.Pairwise fun first second => ∀ clock ∈ first.clocks, clock ∉ second.clocks := by
  have within : ∀ run ∈ batch.runs, run.clocks.Nodup := by
    intro run here
    obtain ⟨log, analyzed⟩ := ofLog_of_ofArchive ran here
    exact Run.nodup_clocks analyzed
  rw [List.nodup_flatMap, and_iff_right within]
  rfl

/-- The summary of a batch counts the times that its table tells, all of them, those with a valid
row, and those without. These are never more than the ticks of its drives, and they are the ticks as
long as no two of these are told at one time: as long as no two drives have ticks at one time, where
no time is rounded. -/
theorem summary_counts_times (ran : ofArchive settings archive = .ok batch)
    (driven : batch.runs ≠ []) (ticked : ∀ run ∈ batch.runs, run.ticks ≠ []) :
    ∃ summary, batch.summary = .ok summary ∧
      summary = ⟨batch.table.times.ncard, batch.table.validTimes.ncard,
        (batch.table.times \ batch.table.validTimes).ncard⟩ ∧
      (summary.evaluated ≤ batch.tally.evaluated ∧ summary.successful ≤ batch.tally.successful ∧
        summary.skipped ≤ batch.tally.skipped) ∧
      (summary = batch.tally ↔ (batch.told fun _ => true).Nodup) ∧
      ((∀ run ∈ batch.runs, ¬ run.Straddles) → batch.timeKind ≠ .rounded →
        (summary = batch.tally ↔ batch.runs.Pairwise fun first second =>
          ∀ clock ∈ first.clocks, clock ∉ second.clocks)) := by
  obtain ⟨run, here⟩ := List.exists_mem_of_ne_nil _ driven
  have some : ∃ run ∈ batch.runs, run.ticks ≠ [] := ⟨run, here, ticked run here⟩
  have told := summary_eq_ncard ran some
  have same := summary_eq_tally_iff some
  rw [told, Except.ok.injEq] at same
  refine ⟨_, told, rfl, ⟨?_, ?_, Int.ofNat_le.mpr (skipped_le ran)⟩, same, ?_⟩
  · rw [table_times ran, ← length_eraseDups]
    exact Nat.le_trans (length_eraseDups_le _) (Nat.le_of_eq (length_told ..))
  · rw [table_validTimes ran, ← length_eraseDups]
    exact Nat.le_trans (length_eraseDups_le _) (Nat.le_of_eq (length_told ..))
  · intro apart exact
    rw [same, told_eq_clocks apart exact]
    exact nodup_clocks_iff ran

def evenArchive : LogArchive Float :=
  ⟨[⟨"first", .file (some (Run.evenDrive 0 8))⟩,
    ⟨"second", .file (some (Run.evenDrive 2000000000 8))⟩]⟩

theorem evenArchive_counts_times :
    ∃ batch, ofArchive Run.evenSettings evenArchive = .ok batch ∧
      batch.runs ≠ [] ∧ (∀ run ∈ batch.runs, run.ticks ≠ []) ∧
      batch.tally = ⟨16, 8, 8⟩ ∧ batch.summary = .ok ⟨16, 8, 8⟩ := by
  have evaluated : (ofArchive Run.evenSettings evenArchive).toOption.map (fun batch =>
      (batch.tally, batch.timeKind, batch.runs.length,
        decide (∀ clocks ∈ batch.runs.map Run.clocks,
          clocks ≠ [] ∧ ∀ clock ∈ clocks, clock < TimeKind.wordHalf),
        decide ((batch.runs.map Run.clocks).Pairwise fun first second =>
          ∀ clock ∈ first, clock ∉ second))) = some (⟨16, 8, 8⟩, .signed, 2, true, true) := by
    decide +kernel
  obtain ⟨batch, ran, told⟩ := exists_ok_of_map evaluated
  simp only [Prod.mk.injEq, decide_eq_true_eq, List.forall_mem_map] at told
  obtain ⟨tally, kind, length, early, disjoint⟩ := told
  have driven : batch.runs ≠ [] := by
    rw [← List.length_pos_iff, length]
    decide
  have ticked : ∀ run ∈ batch.runs, run.ticks ≠ [] := by
    intro run here none
    exact (early run here).1 (by rw [Run.clocks, none, List.map_nil])
  have apart : ∀ run ∈ batch.runs, ¬ run.Straddles := by
    rintro run here ⟨-, -, clock, inside, late⟩
    have bound := (early run here).2 clock inside
    omega
  obtain ⟨summary, counted, -, -, -, same⟩ := summary_counts_times ran driven ticked
  have equal := (same apart (by rw [kind]; decide)).mpr (List.pairwise_map.mp disjoint)
  exact ⟨batch, ran, driven, ticked, tally, by rw [counted, equal, tally]⟩

def restArchive (first second : Int) : LogArchive Float :=
  ⟨[⟨"first", .file (some (Run.restDrive first))⟩, ⟨"second", .file (some (Run.restDrive second))⟩]⟩

theorem restArchive_overlap :
    ∃ batch, ofArchive Run.restSettings (restArchive 1000000000 1000000000) = .ok batch ∧
      batch.runs ≠ [] ∧ (∀ run ∈ batch.runs, run.ticks ≠ []) ∧
      batch.summary = .ok ⟨2, 1, 1⟩ ∧ batch.tally = ⟨4, 2, 2⟩ := by
  have evaluated : (ofArchive Run.restSettings (restArchive 1000000000 1000000000)).toOption.map
      (fun batch => (batch.summary.toOption, batch.tally, batch.runs.map fun run => run.ticks.length)) =
        some (some ⟨2, 1, 1⟩, ⟨4, 2, 2⟩, [2, 2]) := by
    decide +kernel
  obtain ⟨batch, ran, told⟩ := exists_ok_of_map evaluated
  simp only [Prod.mk.injEq, toOption_eq_some_iff] at told
  obtain ⟨summary, tally, lengths⟩ := told
  refine ⟨batch, ran, ?_, ?_, summary, tally⟩
  · intro none
    rw [none] at lengths
    cases lengths
  · intro run here none
    have listed := List.mem_map_of_mem here (f := fun run => run.ticks.length)
    rw [lengths, none] at listed
    simp at listed

end Batch

end ManeuverRanking
