import ManeuverRanking.Proofs.Analysis.Course
import ManeuverRanking.Proofs.Candidate.Stages

/-!
A run against a build on the whole drive. The rows of a valid tick are those of a build that sees
all records at once, so the width of the windows and the time between ticks decide which ticks are
valid and nothing else. In the table of the run only times are ever rounded.
-/

namespace ManeuverRanking

namespace Run

/-- The rows of a build on a fresh snapshot at a time with all the given records. -/
def offlineRows {α : Type} [Scalar α] (builder : Builder α) (clock span : Int)
    (entries : List (Entry α)) : Except (Fault α) (Outcome Shortage (List (Row α))) := do
  let full ← Snapshot.load recordStamp clock span entries
  let outcome ← (builder.build full).outcome
  return outcome.map fun ranking => Analysis.rows ⟨clock, ranking, false⟩

def validRow {α : Type} (logName : String) (row : Row α) : Row α :=
  row ++ [(.valid, .flag true), (.logName, .text logName)]

end Run

namespace RunState.Offline

variable {α : Type} [Scalar α] {log : DriveLog α} {builder : Builder α} {tick : RunTick α}

theorem rows_eq (offline : RunState.Offline log builder tick) (valid : tick.isValid = true)
    (logName : String) {entries : List (Entry α)} (arranged : log.Arranged entries) {span : Int}
    (width : 0 ≤ span) :
    ∃ rows, Run.offlineRows builder tick.clock span entries = .ok (.ready rows) ∧
      tick.rows logName = rows.map (Run.validRow logName) := by
  cases outcome : tick.outcome with
  | notReady cause => simp [RunTick.isValid, outcome, Outcome.isReady] at valid
  | ready analysis =>
      obtain ⟨ranking, rfl, builds⟩ := offline analysis outcome
      obtain ⟨full, loaded, built⟩ := builds entries arranged span width
      refine ⟨Analysis.rows ⟨tick.clock, ranking, false⟩, ?_, ?_⟩
      · simp only [Run.offlineRows, loaded, built, bind, Except.bind, pure, Except.pure,
          Outcome.map]
      · simp only [RunTick.rows, outcome, valid]
        rfl

theorem rows_ne_nil (offline : RunState.Offline log builder tick) (logName : String) :
    tick.rows logName ≠ [] := by
  intro none
  rw [RunTick.rows, List.map_eq_nil_iff] at none
  cases outcome : tick.outcome with
  | notReady cause => simp [outcome] at none
  | ready analysis =>
      obtain ⟨ranking, rfl, builds⟩ := offline analysis outcome
      obtain ⟨full, -, built⟩ := builds log.entries (entriesOf_entries log) 0 (Int.le_refl 0)
      simp only [outcome, Analysis.rows, List.map_eq_nil_iff, List.zipIdx_eq_nil_iff] at none
      exact Builder.build_ne_nil built none

end RunState.Offline

namespace Run

/-- Each valid tick of a run yields the rows of a build on the whole drive at its time, whatever the
window span and the time step are, and the table keeps every cell of them but for rounded times. -/
theorem valid_rows_eq_offline {settings : RunSettings Float} {log : DriveLog Float}
    (ordered : log.Ordered recordStamp) {run : Run Float}
    (ran : Run.ofLog settings log = .ok run) :
    ∃ builder notices, settings.builder = .ok (builder, notices) ∧
      (∀ tick ∈ run.ticks, tick.isValid = true →
        (∀ entries, log.Arranged entries → ∀ span ≥ 0, ∃ rows,
          offlineRows builder tick.clock span entries = .ok (.ready rows) ∧
            tick.rows run.logName = rows.map (validRow log.name)) ∧
        ∀ windowSpan timeStep other,
          Run.ofLog { settings with windowSpan := windowSpan, timeStep := timeStep } log =
            .ok other →
          ∀ tick' ∈ other.ticks, tick'.isValid = true → tick'.clock = tick.clock →
            tick'.rows other.logName = tick.rows run.logName) ∧
      run.table.rows = (run.ticks.flatMap fun tick =>
        (tick.rows run.logName).map (Row.holdTime run.timeKind)) ∧
      ∀ tick ∈ run.ticks, ∀ row ∈ tick.rows run.logName,
        (∀ column, column ≠ .timestamp →
          (row.holdTime run.timeKind).cell column = row.cell column) ∧
        row.cell .timestamp = .integer tick.clock ∧
        (row.holdTime run.timeKind).cell .timestamp =
          .integer (run.timeKind.hold Float tick.clock) ∧
        (¬ run.Straddles → row.holdTime run.timeKind = row) := by
  obtain ⟨builder, notices, built, name, -⟩ := Run.ofLog_eq_ok ran
  have offline := Run.offline_of_ofLog ordered built builder.horizon.forward ran
  refine ⟨builder, notices, built, ?_, ?_, ?_⟩
  · intro tick member valid
    constructor
    · intro entries arranged span width
      rw [name]
      exact (offline tick member).rows_eq valid log.name arranged width
    · intro windowSpan timeStep other otherRan tick' otherMember otherValid sameClock
      obtain ⟨-, -, -, otherName, -⟩ := Run.ofLog_eq_ok otherRan
      have otherBuilt : RunSettings.builder
          { settings with windowSpan := windowSpan, timeStep := timeStep } =
            .ok (builder, notices) := built
      have otherOffline :=
        Run.offline_of_ofLog ordered otherBuilt builder.horizon.forward otherRan
      have arranged : log.Arranged log.entries := entriesOf_entries log
      -- Both ticks are compared with one build on the whole drive; windows of no span will do.
      obtain ⟨rows, loaded, same⟩ :=
        (offline tick member).rows_eq valid log.name arranged (Int.le_refl 0)
      obtain ⟨otherRows, otherLoaded, otherSame⟩ :=
        (otherOffline tick' otherMember).rows_eq otherValid log.name arranged (Int.le_refl 0)
      rw [sameClock, loaded, Except.ok.injEq, Outcome.ready.injEq] at otherLoaded
      rw [name, otherName, same, otherSame, otherLoaded]
  · simp only [Run.table, Table.ofRows, Run.rows, List.map_flatMap]
  · intro tick member row inside
    have told := (Run.timely_of_ofLog ran tick member).cell_timestamp inside
    exact ⟨fun column other => Row.cell_mapTime_other _ _ other, told,
      Row.cell_mapTime_timestamp _ told, fun apart =>
        Row.holdTime_eq_self (fun kind => apart (run.timeKind_eq_rounded_iff.mp kind)) row⟩

theorem evenDrive_offline : ∃ run other, ofLog evenSettings (evenDrive 0 10) = .ok run ∧
    ofLog { evenSettings with windowSpan := 0.2, timeStep := 0.3 } (evenDrive 0 10) = .ok other ∧
    ∃ tick ∈ run.ticks, tick.isValid = true ∧ tick.clock = 300000000 ∧
      (∃ builder notices rows, evenSettings.builder = .ok (builder, notices) ∧
        offlineRows builder tick.clock 0 (evenDrive 0 10).entries = .ok (.ready rows) ∧
        tick.rows run.logName = rows.map (validRow "even")) ∧
      ∃ tick' ∈ other.ticks, tick'.isValid = true ∧
        tick'.rows other.logName = tick.rows run.logName := by
  have evaluated : ((ofLog evenSettings (evenDrive 0 10)).toOption.map fun run =>
      decide ((300000000, true) ∈ run.verdicts)) = some true := by
    decide +kernel
  have evaluated' : ((ofLog { evenSettings with windowSpan := 0.2, timeStep := 0.3 }
      (evenDrive 0 10)).toOption.map fun run => decide ((300000000, true) ∈ run.verdicts)) =
        some true := by
    decide +kernel
  obtain ⟨run, ran, listed⟩ := exists_ok_of_map evaluated
  obtain ⟨other, ran', listed'⟩ := exists_ok_of_map evaluated'
  obtain ⟨tick, member, clock, valid⟩ := mem_verdicts_iff.mp (of_decide_eq_true listed)
  obtain ⟨tick', member', clock', valid'⟩ := mem_verdicts_iff.mp (of_decide_eq_true listed')
  obtain ⟨builder, notices, built, groups, -⟩ := valid_rows_eq_offline (evenDrive_ordered 0 10) ran
  obtain ⟨offline, others⟩ := groups tick member valid
  obtain ⟨rows, loaded, equal⟩ := offline (evenDrive 0 10).entries
    (entriesOf_entries (evenDrive 0 10)) 0 (Int.le_refl 0)
  exact ⟨run, other, ran, ran', tick, member, valid, clock,
    ⟨builder, notices, rows, built, loaded, equal⟩, tick', member', valid',
    others _ _ other ran' tick' member' valid' (clock'.trans clock.symm)⟩

theorem restDrive_ordered (last : Int) : (restDrive last).Ordered recordStamp := by
  constructor
  · intro stream value member
    cases stream <;> simp [restDrive, PerStream.get] at member
    all_goals
      rcases member with rfl | rfl | rfl
      all_goals exact ⟨_, rfl⟩
  · intro stream
    cases stream <;>
      simp [DriveLog.stamped, stampAll, restDrive, PerStream.get, recordStamp,
        TransformBatch.stamp]
    all_goals omega

theorem restDrive_edge_tick : ∃ run, ofLog restSettings (restDrive edge) = .ok run ∧
    run.Straddles ∧
    ∃ tick ∈ run.ticks, tick.clock = edge - 150000000 ∧ tick.isValid = true := by
  have evaluated : (ofLog restSettings (restDrive edge)).toOption.map Run.verdicts =
      some [(edge - 150000000, true), (edge + 100000000, false)] := by
    decide +kernel
  obtain ⟨run, ran, verdicts⟩ := exists_ok_of_map evaluated
  refine ⟨run, ran, ?_, ?_⟩
  · simp only [Straddles, ← map_fst_verdicts, verdicts]
    decide
  · rw [← mem_verdicts_iff, verdicts]
    exact List.mem_cons_self

/-- Where the ticks of a run lie on both sides of the edge, the table does not keep the time of a
valid tick. -/
theorem restDrive_edge_rounds : ∃ run, ofLog restSettings (restDrive edge) = .ok run ∧
    ∃ tick ∈ run.ticks, tick.isValid = true ∧
      ∃ builder notices rows, restSettings.builder = .ok (builder, notices) ∧
        offlineRows builder tick.clock 0 (restDrive edge).entries = .ok (.ready rows) ∧
        (tick.rows run.logName).map (Row.holdTime run.timeKind) ≠
          rows.map (validRow (restDrive edge).name) := by
  obtain ⟨run, ran, straddles, tick, member, clock, valid⟩ := restDrive_edge_tick
  obtain ⟨builder, notices, built, name, -⟩ := Run.ofLog_eq_ok ran
  have offline :=
    Run.offline_of_ofLog (restDrive_ordered edge) built builder.horizon.forward ran tick member
  obtain ⟨rows, loaded, equal⟩ :=
    offline.rows_eq valid run.logName (entriesOf_entries (restDrive edge)) (Int.le_refl 0)
  refine ⟨run, ran, tick, member, valid, builder, notices, rows, built, loaded, ?_⟩
  rw [← name, ← equal]
  intro kept
  obtain ⟨row, rest, listed⟩ := List.exists_cons_of_ne_nil (offline.rows_ne_nil run.logName)
  have told : row.cell .timestamp = .integer tick.clock := by
    apply (Run.timely_of_ofLog ran tick member).cell_timestamp
    rw [listed]
    exact List.mem_cons_self
  have held := Row.cell_mapTime_timestamp (run.timeKind.hold Float) told
  rw [← Row.holdTime_eq_mapTime] at held
  rw [listed, List.map_cons, List.cons.injEq] at kept
  rw [kept.1, told, Cell.integer.injEq, run.timeKind_eq_rounded_iff.mpr straddles, clock] at held
  have moved : TimeKind.hold Float .rounded (edge - 150000000) ≠ edge - 150000000 := by
    decide +kernel
  exact moved held.symm

end Run

end ManeuverRanking
