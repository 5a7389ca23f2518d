import ManeuverRanking.Proofs.Delay.Run

/-!
The table of a drive recorded some time later. Every row tells a later time and is otherwise the
same, except that a column in which signed and unsigned words meet rounds the times it holds.
-/

namespace ManeuverRanking

variable {α : Type}

def Table.delay (time : Int) (table : Table α) : Table α :=
  ⟨table.columns, table.rows.map (Row.delay time)⟩

theorem DriveLog.good_of_fits {log : DriveLog α} {time : Int}
    (fits : ∀ report ∈ log.records.acceleration,
      Extractor.fitsWord report.stamp = true ∧ Extractor.fitsWord (report.stamp + time) = true) :
    log.Good (Payload.Fits time) := by
  intro stream value member
  cases stream with
  | acceleration => exact fits value member
  | transforms | odometry | objects | steering | plan => trivial

variable [Scalar α]

theorem RunTick.rows_ne_nil_of_skipped {tick : RunTick α} (skipped : tick.isValid = false)
    (logName : String) : tick.rows logName ≠ [] := by
  cases outcome : tick.outcome with
  | ready analysis => simp [isValid, outcome, Outcome.isReady] at skipped
  | notReady cause => simp [rows, outcome]

namespace Run

structure TableDelayed (time : Int) (run run' : Run α) : Prop where
  clocks : run'.clocks = run.clocks.map (· + time)
  times : ∀ row ∈ run.exactRows, ∃ clock ∈ run.clocks, row.cell .timestamp = .integer clock ∧
    (row.delay time).cell .timestamp = .integer (clock + time)
  rows : run.table.rows = run.exactRows.map (Row.holdTime run.timeKind) ∧
    run'.table.rows = (run.exactRows.map (Row.delay time)).map (Row.holdTime run'.timeKind)
  columns : run'.table.columns = run.table.columns
  cells : ∀ column, column ≠ .timestamp →
    run'.table.rows.map (fun row => row.cell column) =
      run.table.rows.map fun row => row.cell column
  exact : ¬ run.Straddles → ¬ run'.Straddles → run'.table = run.table.delay time

theorem Delayed.table {time : Int} {run run' : Run α} (delayed : Delayed time run run')
    (timely : ∀ tick ∈ run.ticks, tick.Timely) : TableDelayed time run run' := by
  have rows : run.table.rows = run.exactRows.map (Row.holdTime run.timeKind) := rfl
  have rows' :
      run'.table.rows = (run.exactRows.map (Row.delay time)).map (Row.holdTime run'.timeKind) := by
    rw [← delayed.rows]
    rfl
  have columns : run'.table.columns = run.table.columns := by
    apply Table.columns_ofRows_congr
    change run'.table.rows.map _ = run.table.rows.map _
    simp only [rows, rows', List.map_map]
    apply List.map_congr_left
    intro row _
    simp only [Function.comp_apply, Row.holdTime_eq_mapTime, Row.columns_mapTime, Row.delay]
  refine ⟨delayed.clocks, ?_, ⟨rows, rows'⟩, columns, ?_, ?_⟩
  · intro row member
    obtain ⟨tick, inside, told⟩ := List.mem_flatMap.mp member
    have timestamp := (timely tick inside).cell_timestamp told
    exact ⟨tick.clock, List.mem_map_of_mem inside, timestamp,
      Row.cell_mapTime_timestamp _ timestamp⟩
  · intro column other
    simp only [rows, rows', List.map_map]
    apply List.map_congr_left
    intro row _
    simp only [Function.comp_apply, Row.holdTime_eq_mapTime, Row.delay,
      Row.cell_mapTime_other _ _ other]
  · intro apart apart'
    rw [← timeKind_eq_rounded_iff] at apart apart'
    have kept : ∀ rows : List (Row α), rows.map (Row.holdTime run.timeKind) = rows ∧
        rows.map (Row.holdTime run'.timeKind) = rows := by
      intro rows
      constructor
      · exact List.map_id'' (Row.holdTime_eq_self apart) rows
      · exact List.map_id'' (Row.holdTime_eq_self apart') rows
    rw [(kept _).1] at rows
    rw [(kept _).2, ← rows] at rows'
    change Table.mk run'.table.columns run'.table.rows = _
    rw [columns, rows']
    rfl

/-- A drive recorded some time later, the accelerations always within words, fails as the drive
does or has the same table at a later time, but for times that are rounded where the ticks of a run
need signed words and unsigned ones. -/
theorem ofLog_delay_table (settings : RunSettings α) {log : DriveLog α} {time : Int}
    (fits : ∀ report ∈ log.records.acceleration,
      Extractor.fitsWord report.stamp = true ∧ Extractor.fitsWord (report.stamp + time) = true) :
    Alike (TableDelayed time) (ofLog settings log) (ofLog settings (log.delay time)) := by
  have timely := (ofLog_alike settings (DriveLog.good_of_fits fits)).of_left
    fun run ran => timely_of_ofLog ran
  rcases timely.cases_on with ⟨_, _, failed, failed', same⟩ | ⟨run, run', ran, ran', known, delayed⟩
  · rw [failed, failed']
    exact same
  · rw [ran, ran']
    exact delayed.table known

theorem evenDrive_delay_table : ∃ run run', ofLog evenSettings (evenDrive 0 10) = .ok run ∧
    ofLog evenSettings ((evenDrive 0 10).delay 1000) = .ok run' ∧
    (∃ tick ∈ run.ticks, tick.isValid = true) ∧ run'.table = run.table.delay 1000 := by
  have fits : ∀ report ∈ (evenDrive 0 10).records.acceleration,
      Extractor.fitsWord report.stamp = true ∧
        Extractor.fitsWord (report.stamp + 1000) = true := by
    decide +kernel
  have evaluated : (ofLog evenSettings (evenDrive 0 10)).toOption.map (fun run =>
      (decide ((300000000, true) ∈ run.verdicts), run.clocks)) = some (true, [100000000, 200000000,
        300000000, 400000000, 500000000, 600000000, 700000000, 800000000, 900000000,
        1000000000]) := by
    decide +kernel
  obtain ⟨run, ran, told⟩ := exists_ok_of_map evaluated
  obtain ⟨listed, clocks⟩ := Prod.mk.inj told
  have alike := ofLog_delay_table evenSettings fits
  rw [ran] at alike
  obtain ⟨run', ran', delayed⟩ := alike.exists_of_ok
  have apart : ¬ run.Straddles ∧ ¬ run'.Straddles := by
    simp only [Straddles, delayed.clocks, clocks]
    decide
  obtain ⟨tick, member, -, valid⟩ := mem_verdicts_iff.mp (of_decide_eq_true listed)
  exact ⟨run, run', ran, ran', ⟨tick, member, valid⟩, delayed.exact apart.1 apart.2⟩

theorem restDrive_verdicts : ∃ run, ofLog restSettings (restDrive 0) = .ok run ∧
    run.verdicts = [(-150000000, true), (100000000, false)] := by
  have evaluated : (ofLog restSettings (restDrive 0)).toOption.map Run.verdicts =
      some [(-150000000, true), (100000000, false)] := by
    decide +kernel
  exact exists_ok_of_map evaluated

/-- Moved to the edge, the ticks of the drive lie on both sides of it, and the table does not keep
their times. -/
theorem restDrive_delay_rounds :
    (∀ report ∈ (restDrive 0).records.acceleration, Extractor.fitsWord report.stamp = true ∧
      Extractor.fitsWord (report.stamp + (edge - 50000000)) = true) ∧
    ∃ run run', ofLog restSettings (restDrive 0) = .ok run ∧
      ofLog restSettings ((restDrive 0).delay (edge - 50000000)) = .ok run' ∧
      run'.table ≠ run.table.delay (edge - 50000000) := by
  have fits : ∀ report ∈ (restDrive 0).records.acceleration,
      Extractor.fitsWord report.stamp = true ∧
        Extractor.fitsWord (report.stamp + (edge - 50000000)) = true := by
    decide +kernel
  refine ⟨fits, ?_⟩
  obtain ⟨run, ran, verdicts⟩ := restDrive_verdicts
  have alike := ofLog_alike restSettings (DriveLog.good_of_fits fits)
  rw [ran] at alike
  obtain ⟨run', ran', delayed⟩ := alike.exists_of_ok
  refine ⟨run, run', ran, ran', ?_⟩
  intro kept
  have straddles : ¬ run.Straddles ∧ run'.Straddles := by
    simp only [Straddles, delayed.clocks, ← map_fst_verdicts, verdicts]
    decide
  rw [← timeKind_eq_rounded_iff, ← timeKind_eq_rounded_iff] at straddles
  have table := delayed.table (timely_of_ofLog ran)
  have rows := congrArg Table.rows kept
  rw [table.rows.2, Table.delay, table.rows.1, straddles.2,
    List.map_id'' (Row.holdTime_eq_self straddles.1)] at rows
  have skipped : (100000000, false) ∈ run.verdicts := by
    rw [verdicts]
    exact List.mem_cons_of_mem _ List.mem_cons_self
  obtain ⟨tick, member, -, skips⟩ := mem_verdicts_iff.mp skipped
  obtain ⟨row, inside⟩ :=
    List.exists_mem_of_ne_nil _ (RunTick.rows_ne_nil_of_skipped skips run.logName)
  have listed : row ∈ run.exactRows := List.mem_flatMap.mpr ⟨tick, member, inside⟩
  have still : (row.delay (edge - 50000000)).holdTime .rounded = row.delay (edge - 50000000) := by
    rw [List.map_map] at rows
    exact List.map_inj_left.mp rows row listed
  obtain ⟨clock, known, -, told⟩ := table.times row listed
  have held := Row.cell_mapTime_timestamp (TimeKind.hold Float .rounded) told
  rw [← Row.holdTime_eq_mapTime, still, told, Cell.integer.injEq] at held
  have moved : ∀ clock ∈ [(-150000000 : Int), 100000000],
      TimeKind.hold Float .rounded (clock + (edge - 50000000)) ≠ clock + (edge - 50000000) := by
    decide +kernel
  rw [← map_fst_verdicts, verdicts] at known
  exact moved clock known held.symm

end Run

end ManeuverRanking
