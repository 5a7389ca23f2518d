import ManeuverRanking.Proofs.Analysis.Coverage
import ManeuverRanking.Proofs.Analysis.Offline
import ManeuverRanking.Proofs.Candidate.Order

/-!
The shape of a run's table. It has one group of rows for each tick, and there are as many ticks as
steps fit between the start and the end, and one more; that last one is never valid.
-/

namespace ManeuverRanking

namespace DriveLog

variable {α : Type} {log : DriveLog α}

theorem le_endTime (timed : log.records.odometry.Pairwise fun first second =>
      first.stamp ≤ second.stamp) {final : Int} (ends : log.endTime = .ok final)
    {odometry : Odometry α} (member : odometry ∈ log.records.odometry) :
    odometry.stamp ≤ final := by
  unfold endTime at ends
  split at ends
  · rename_i last found
    cases ends
    exact le_getLast_of_pairwise timed found member
  · cases ends

theorem startTime_le_endTime (timed : log.records.odometry.Pairwise fun first second =>
      first.stamp ≤ second.stamp) {start final : Int} (starts : log.startTime = .ok start)
    (ends : log.endTime = .ok final) : start ≤ final := by
  unfold startTime at starts
  split at starts
  · rename_i first found
    cases starts
    exact le_endTime timed ends (List.mem_of_mem_head? found)
  · cases starts

theorem Ordered.timed (ordered : log.Ordered recordStamp) :
    log.records.odometry.Pairwise fun first second => first.stamp ≤ second.stamp := by
  have sorted := ordered.sorted .odometry
  rw [log.stamped_odometry, List.pairwise_map] at sorted
  exact sorted

end DriveLog

def SkippedGroup (told : Int) (rows : List (Row Float)) : Prop :=
  ∃ row, rows = [row] ∧ row.cell .timestamp = .integer told ∧ row.cell .valid = .flag false ∧
    row.cell .total = .missing ∧ ∀ criterion, row.cell (.score criterion) = .missing

structure RankedGroup (told : Int) (ranking : Ranking Float) (rows : List (Row Float)) : Prop where
  marked : ∀ row ∈ rows, row.cell .timestamp = .integer told ∧ row.cell .valid = .flag true ∧
    row.cell .stale = .flag false
  ranks : rows.map (fun row => row.cell .rank) =
    (List.range ranking.ranked.length).map fun rank : Nat => .integer rank
  generations : rows.map (fun row => row.cell .generation) =
    ranking.ranked.map fun scored => .integer scored.candidate.generation
  totals : rows.map (fun row => row.cell .total) =
    ranking.ranked.map fun scored => .number scored.total

namespace Run

def group {α : Type} [Scalar α] (run : Run α) (tick : RunTick α) : List (Row α) :=
  (tick.rows run.logName).map (Row.holdTime run.timeKind)

theorem skippedGroup (run : Run Float) {tick : RunTick Float} {cause : Shortage}
    (waiting : tick.outcome = .notReady cause) :
    SkippedGroup (run.timeKind.hold Float tick.clock) (run.group tick) := by
  have rows : tick.rows run.logName =
      [skippedRow tick.clock ++ [(.valid, .flag false), (.logName, .text run.logName)]] := by
    simp only [RunTick.rows, RunTick.isValid, waiting]
    rfl
  refine ⟨_, by rw [group, rows]; rfl, ?_, ?_, ?_, ?_⟩
  · exact Row.cell_mapTime_timestamp _ rfl
  · exact Row.cell_mapTime_other _ _ (by decide)
  · exact Row.cell_mapTime_other _ _ (by decide)
  · intro criterion
    rw [Row.holdTime_eq_mapTime, Row.cell_mapTime_other _ _ (by simp)]
    cases criterion <;> rfl

theorem rankedGroup (run : Run Float) {tick : RunTick Float} {ranking : Ranking Float}
    (ready : tick.outcome = .ready ⟨tick.clock, ranking, false⟩) :
    RankedGroup (run.timeKind.hold Float tick.clock) ranking (run.group tick) := by
  let bare (place : ScoredCandidate Float × Nat) : Row Float :=
    Analysis.row ⟨tick.clock, ranking, false⟩ place.1 place.2 ++
      [(.valid, .flag true), (.logName, .text run.logName)]
  have rows : run.group tick = ranking.ranked.zipIdx.map fun place =>
      (bare place).holdTime run.timeKind := by
    simp only [group, RunTick.rows, RunTick.isValid, ready, Analysis.rows, List.map_map]
    rfl
  have kept (place : ScoredCandidate Float × Nat) {column : Column} (other : column ≠ .timestamp) :
      ((bare place).holdTime run.timeKind).cell column = (bare place).cell column :=
    Row.cell_mapTime_other _ _ other
  have cells {column : Column} (other : column ≠ .timestamp) :
      (run.group tick).map (fun row => row.cell column) =
        ranking.ranked.zipIdx.map fun place => (bare place).cell column := by
    rw [rows, List.map_map]
    apply List.map_congr_left
    intro place _
    exact kept place other
  have places : ranking.ranked.zipIdx.map Prod.snd = List.range ranking.ranked.length := by
    rw [List.zipIdx_map_snd, List.range_eq_range']
  have candidates : ranking.ranked.zipIdx.map Prod.fst = ranking.ranked := List.zipIdx_map_fst 0 _
  constructor
  · intro row member
    rw [rows] at member
    obtain ⟨place, -, rfl⟩ := List.mem_map.mp member
    refine ⟨Row.cell_mapTime_timestamp _ rfl, ?_, ?_⟩
    · rw [kept place (by decide)]
      rfl
    · rw [kept place (by decide)]
      rfl
  · rw [cells (by decide), ← places, List.map_map]
    rfl
  · conv => rhs; rw [← candidates, List.map_map]
    rw [cells (by decide)]
    rfl
  · conv => rhs; rw [← candidates, List.map_map]
    rw [cells (by decide)]
    rfl

namespace Setup

variable {settings : RunSettings Float} {log : DriveLog Float} {run : Run Float}

theorem lt_endTime_of_isValid (setup : Setup settings log)
    (timed : log.records.odometry.Pairwise fun first second => first.stamp ≤ second.stamp)
    {count : Nat} {before : RunState Float}
    (reached : setup.first.after setup.lookahead count = .ok before) {next : RunState.Advance Float}
    (advanced : before.advance setup.lookahead = .ok next) (valid : next.tick.isValid = true) :
    next.tick.clock + setup.span < setup.endTime := by
  obtain ⟨drawn, fresh⟩ := (setup.paced reached).arrive
  have ready := RunState.isReady_of_isValid advanced valid
  obtain ⟨odometry, member, stamp, read, late, -⟩ := drawn.exists_of_isReady fresh ready .odometry
  have bound := DriveLog.le_endTime timed setup.ends member
  cases read
  have arrival := before.arrive_clock setup.lookahead
  have clock := RunState.advance_tick_clock advanced
  have width := setup.span_nonneg
  omega

theorem length_ticks (setup : Setup settings log)
    (timed : log.records.odometry.Pairwise fun first second => first.stamp ≤ second.stamp)
    (ran : ofLog settings log = .ok run) :
    (run.ticks.length : Int) = (setup.endTime - setup.start) / setup.step + 1 := by
  obtain ⟨ticks, done, listed⟩ := setup.ticksUntil_of_ofLog ran
  have due := DriveLog.startTime_le_endTime timed setup.starts setup.ends
  rw [listed, List.length_map]
  exact RunState.length_ticksUntil done due

end Setup

/-- A run of a drive with odometry in order ends after as many ticks as steps fit, and one more. Its
table has a group of rows for each of them, told the time of the tick: a single row without scores, or
the complete ranking of a tick before the end. -/
theorem table_shape {settings : RunSettings Float} {log : DriveLog Float}
    (timed : log.records.odometry.Pairwise fun first second => first.stamp ≤ second.stamp)
    {run : Run Float} (ran : ofLog settings log = .ok run) :
    ∃ setup : Setup settings log,
      (run.ticks.length : Int) = (setup.endTime - setup.start) / setup.step + 1 ∧
      run.table.rows = run.ticks.flatMap run.group ∧
      (∀ (count : Nat) (tick : RunTick Float), run.ticks[count]? = some tick →
        tick.clock = setup.start + (count + 1) * setup.step ∧
        (tick.isValid = false →
          SkippedGroup (run.timeKind.hold Float tick.clock) (run.group tick)) ∧
        (tick.isValid = true → tick.clock + setup.span < setup.endTime ∧
          ∃ ranking : Ranking Float, ranking.Complete ∧
            RankedGroup (run.timeKind.hold Float tick.clock) ranking (run.group tick)) ∧
        (count + 1 = run.ticks.length → tick.isValid = false)) ∧
      (¬ run.Straddles → ∀ time, run.timeKind.hold Float time = time) := by
  obtain ⟨setup⟩ := exists_setup ran
  have length := setup.length_ticks timed ran
  refine ⟨setup, length, ?_, ?_, ?_⟩
  · simp only [table, Table.ofRows, rows, List.map_flatMap]
    rfl
  · intro count tick found
    obtain ⟨before, next, reached, -, advanced, rfl⟩ := setup.exists_of_getElem? ran found
    have clock : next.tick.clock = setup.start + (count + 1) * setup.step := by
      obtain ⟨moved, step⟩ := RunState.after_clock reached
      have start : setup.first.clock = setup.start := rfl
      have same : setup.first.analyzer.step = setup.step := rfl
      rw [RunState.advance_tick_clock advanced, moved, step, start, same, Int.add_mul]
      omega
    have before_end (valid : next.tick.isValid = true) :
        next.tick.clock + setup.span < setup.endTime :=
      setup.lt_endTime_of_isValid timed reached advanced valid
    refine ⟨clock, ?_, ?_, ?_⟩
    · intro skipped
      cases outcome : next.tick.outcome with
      | ready analysis => simp [RunTick.isValid, outcome, Outcome.isReady] at skipped
      | notReady cause => exact run.skippedGroup outcome
    · intro valid
      obtain ⟨_, ranking, -, built, outcome⟩ := setup.build_of_getElem? ran found valid
      exact ⟨before_end valid, ranking, Builder.complete_of_build built, run.rankedGroup outcome⟩
    · intro last
      cases valid : next.tick.isValid with
      | false => rfl
      | true =>
          -- The last tick lies behind the end, while a valid one has odometry ahead of it.
          have early := before_end valid
          have width := setup.span_nonneg
          have fits := Int.lt_ediv_add_one_mul_self (setup.endTime - setup.start) setup.step_pos
          rw [← length, ← last, Int.natCast_succ] at fits
          omega
  · intro apart time
    exact TimeKind.hold_eq_self (fun kind => apart (run.timeKind_eq_rounded_iff.mp kind)) time

theorem length_group {run : Run Float} {tick : RunTick Float} {analysis : Analysis Float}
    (ready : tick.outcome = .ready analysis) :
    (run.group tick).length = analysis.ranking.ranked.length := by
  simp [group, RunTick.rows, ready, Analysis.rows]

theorem evenDrive_table_shape : ∃ run, ofLog evenSettings (evenDrive 0 10) = .ok run ∧
    run.ticks.length = 10 ∧ ∃ tick ∈ run.ticks, tick.clock = 300000000 ∧
      ∃ ranking : Ranking Float, ranking.ranked.length = 2 ∧ ranking.Complete ∧
        RankedGroup 300000000 ranking (run.group tick) := by
  have evaluated : (ofLog evenSettings (evenDrive 0 10)).toOption.map (fun run =>
      (run.ticks.length, run.timeKind,
        run.ticks[2]?.map fun tick => (tick.clock, tick.isValid))) =
        some (10, .signed, some (300000000, true)) := by
    decide +kernel
  have made : evenSettings.builder.toOption.map (fun made =>
      (made.1.includeExecuted, made.1.sampler.isNone)) = some (true, true) := by
    decide +kernel
  obtain ⟨run, ran, told⟩ := exists_ok_of_map evaluated
  simp only [Prod.mk.injEq, Option.map_eq_some_iff] at told
  obtain ⟨length, kind, ⟨tick, third, clock, valid⟩⟩ := told
  obtain ⟨setup, -, -, groups, exact⟩ := table_shape (evenDrive_ordered 0 10).timed ran
  obtain ⟨-, -, ready, -⟩ := groups 2 tick third
  obtain ⟨-, ranking, complete, ranked⟩ := ready valid
  have apart : ¬ run.Straddles := by
    rw [← run.timeKind_eq_rounded_iff, kind]
    nofun
  rw [exact apart, clock] at ranked
  have members : ranking.ranked.length = 2 := by
    obtain ⟨_, other, -, built, outcome⟩ := setup.build_of_getElem? ran third valid
    have group := congrArg List.length ranked.ranks
    simp only [List.length_map, List.length_range, length_group outcome] at group
    obtain ⟨_, same, told⟩ := exists_ok_of_map made
    cases setup.built.symm.trans same
    simp only [Prod.mk.injEq, Option.isNone_iff_eq_none] at told
    rw [← group, Builder.length_of_unsampled built told.2, told.1]
    rfl
  exact ⟨run, ran, length, tick, List.mem_of_getElem? third, clock, ranking, members, complete,
    ranked⟩

/-- Where the ticks of a run lie on both sides of the edge, the table tells a time of no tick. -/
theorem restDrive_edge_told : ∃ setup : Setup restSettings (restDrive edge), 0 < setup.step ∧
    ((restDrive edge).records.odometry.Pairwise fun first second => first.stamp ≤ second.stamp) ∧
    ∃ run, ofLog restSettings (restDrive edge) = .ok run ∧ ∃ row ∈ run.table.rows,
      ∀ count : Nat, row.cell .timestamp ≠ .integer (setup.start + count * setup.step) := by
  obtain ⟨run, ran, straddles, tick, member, clock, -⟩ := restDrive_edge_tick
  obtain ⟨setup⟩ := exists_setup ran
  obtain ⟨builder, notices, built, -⟩ := Run.ofLog_eq_ok ran
  have offline :=
    Run.offline_of_ofLog (restDrive_ordered edge) built builder.horizon.forward ran tick member
  obtain ⟨row, rest, listed⟩ := List.exists_cons_of_ne_nil (offline.rows_ne_nil run.logName)
  have inside : row ∈ tick.rows run.logName := by
    rw [listed]
    exact List.mem_cons_self
  have paced : restSettings.paces.toOption = some (0, 250000000, 500000000) := by
    decide +kernel
  obtain ⟨-, step, -⟩ := setup.eq_of_paces paced
  have starts : (restDrive edge).startTime = .ok (edge - 400000000) := rfl
  rw [setup.starts, Except.ok.injEq] at starts
  have moved : TimeKind.hold Float .rounded (edge - 150000000) = edge - 149999616 := by
    decide +kernel
  refine ⟨setup, setup.step_pos, (restDrive_ordered edge).timed, run, ran,
    row.holdTime run.timeKind, ?_, ?_⟩
  · exact List.mem_map_of_mem (List.mem_flatMap_of_mem member inside)
  · intro count told
    have held := Row.cell_mapTime_timestamp (run.timeKind.hold Float)
      ((Run.timely_of_ofLog ran tick member).cell_timestamp inside)
    rw [← Row.holdTime_eq_mapTime, told, run.timeKind_eq_rounded_iff.mpr straddles, clock, moved,
      Cell.integer.injEq, starts, step] at held
    omega

end Run

end ManeuverRanking
