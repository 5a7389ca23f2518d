import Mathlib.Data.List.Range
import ManeuverRanking.Proofs.Analysis.Lookahead
import ManeuverRanking.Proofs.Analysis.Readiness

/-!
Ticks that a run cannot lose. Where no stream pauses for longer than a gap, and two gaps and a step
fit the lookahead, the records fed ahead of a tick reach past the horizon of that tick.
-/

namespace ManeuverRanking

variable {α β : Type}

/-- Records from a start on, with no pause longer than a gap. -/
structure Dense (gap start : Int) (records : List (Stamped β)) : Prop where
  begun : ∃ first, records.head? = some first ∧ first.stamp ≤ start
  chained : records.IsChain fun early late => late.stamp - early.stamp ≤ gap

theorem exists_within_gap {gap time : Int} (positive : 1 ≤ gap) {first : Stamped β}
    {rest : List (Stamped β)}
    (chained : (first :: rest).IsChain fun early late => late.stamp - early.stamp ≤ gap)
    (early : first.stamp ≤ time) {final : Stamped β}
    (last : (first :: rest).getLast? = some final) (late : time ≤ final.stamp) :
    ∃ record ∈ first :: rest, time - gap < record.stamp ∧ record.stamp ≤ time := by
  induction rest generalizing first with
  | nil =>
      rw [List.getLast?_singleton, Option.some.injEq] at last
      subst last
      exact ⟨first, List.mem_cons_self, by omega, early⟩
  | cons second rest ih =>
      obtain ⟨close, later⟩ := List.isChain_cons_cons.mp chained
      by_cases passed : second.stamp ≤ time
      · rw [List.getLast?_cons_cons] at last
        obtain ⟨record, member, bounds⟩ := ih later passed last
        exact ⟨record, List.mem_cons_of_mem _ member, bounds⟩
      · exact ⟨first, List.mem_cons_self, by omega, early⟩

theorem Dense.exists_within {gap start time : Int} {records : List (Stamped β)}
    (dense : Dense gap start records) (positive : 1 ≤ gap) (after : start ≤ time)
    {final : Stamped β} (last : records.getLast? = some final) (late : time ≤ final.stamp) :
    ∃ record ∈ records, time - gap < record.stamp ∧ record.stamp ≤ time := by
  obtain ⟨first, found, early⟩ := dense.begun
  obtain ⟨rest, rfl⟩ := List.head?_eq_some_iff.mp found
  exact exists_within_gap positive dense.chained (Int.le_trans early after) last late

theorem Dense.exists_last {gap start : Int} {records : List (Stamped β)}
    (dense : Dense gap start records) : ∃ final, records.getLast? = some final := by
  obtain ⟨first, found, -⟩ := dense.begun
  obtain ⟨rest, rfl⟩ := List.head?_eq_some_iff.mp found
  exact ⟨_, List.getLast?_cons⟩

theorem DriveLog.stamped_odometry (log : DriveLog α) :
    log.stamped recordStamp .odometry =
      log.records.odometry.map fun odometry => ⟨odometry.stamp, odometry⟩ := by
  simp only [stamped, stampAll, recordStamp, List.filterMap_eq_map']
  rfl

theorem Replay.Playing.kept {keys : StampKeys α} {log : DriveLog α} {span : Nat}
    {reached : Stream → Int → Bool} {replay : Replay α} {snapshot : Snapshot α}
    (playing : Replay.Playing keys log span reached replay snapshot) : snapshot.Kept span :=
  ⟨fun stream => (playing.holds stream).inOrder, playing.sameSpan⟩

variable [Scalar α]

theorem Analyzer.exists_outcome {analyzer : Analyzer α}
    (calm : ∀ fault, (analyzer.builder.build analyzer.snapshot).outcome = .error fault →
      ∃ gap, fault = .noSeed gap) : ∃ outcome, analyzer.process.outcome = .ok outcome := by
  unfold process
  split
  · split
    · exact ⟨_, rfl⟩
    · exact ⟨_, rfl⟩
    · exact ⟨_, rfl⟩
    · rename_i fault loud failed
      obtain ⟨gap, rfl⟩ := calm fault failed
      exact absurd rfl (loud gap)
  · exact ⟨_, rfl⟩

namespace RunState

variable {log : DriveLog α} {builder : Builder α} {span : Nat} {lookahead : Int}
  {state : RunState α}

structure Behind (log : DriveLog α) (builder : Builder α) (span : Nat) (lookahead : Int)
    (state : RunState α) : Prop where
  sameBuilder : state.analyzer.builder = builder
  playing : ∃ reached, Replay.Playing recordStamp log span reached state.replay
    state.analyzer.snapshot ∧
      ∀ stream stamp, reached stream stamp = true → stamp ≤ state.clock + lookahead

namespace Behind

theorem arrive (behind : Behind log builder span lookahead state)
    (ordered : log.Ordered recordStamp) :
    let fed := state.replay.feedUntil state.analyzer.snapshot (state.clock + lookahead)
    (∃ count, fed.count = .ok count) ∧
      Replay.Playing recordStamp log span (fun _ stamp => decide (stamp ≤ state.clock + lookahead))
        fed.replay (state.arrive lookahead).snapshot ∧
      (state.arrive lookahead).snapshot.Fresh := by
  intro fed
  obtain ⟨reached, playing, early⟩ := behind.playing
  obtain ⟨count, counted, -, played⟩ := playing.feedUntil ordered (state.clock + lookahead)
  refine ⟨⟨count, counted⟩, ?_, played.kept.fresh_advance _⟩
  have same : (fun stream stamp => reached stream stamp || decide (stamp ≤ state.clock + lookahead)) =
      fun _ stamp => decide (stamp ≤ state.clock + lookahead) := by
    funext stream stamp
    cases before : reached stream stamp with
    | false => rfl
    | true => simp [early stream stamp before]
  rw [same] at played
  exact played.advance state.analyzer.step (Int.le_of_lt state.analyzer.step_pos)

theorem toList_arrive (behind : Behind log builder span lookahead state)
    (ordered : log.Ordered recordStamp) (stream : Stream) :
    ((state.arrive lookahead).snapshot.window stream).toList =
      (log.stamped recordStamp stream).filter fun record =>
        decide (state.clock + state.analyzer.step ≤ record.stamp) &&
          decide (record.stamp ≤ state.clock + lookahead) := by
  obtain ⟨-, playing, fresh⟩ := behind.arrive ordered
  rw [← state.arrive_clock lookahead]
  exact (playing.holds stream).toList_eq (fresh stream)

theorem advance (behind : Behind log builder span lookahead state)
    (ordered : log.Ordered recordStamp) {next : Advance α}
    (advanced : state.advance lookahead = .ok next) : Behind log builder span lookahead next.state := by
  have playing := (behind.arrive ordered).2.1
  have forward := state.analyzer.step_pos
  constructor
  · rw [(eq_of_advance advanced).1, Analyzer.process_builder]
    exact behind.sameBuilder
  · refine ⟨fun _ stamp => decide (stamp ≤ state.clock + lookahead), ?_, ?_⟩
    · rw [advance_snapshot advanced, (eq_of_advance advanced).1]
      exact playing
    · intro stream stamp played
      rw [advance_clock advanced]
      have bound := of_decide_eq_true played
      omega

theorem exists_advance (behind : Behind log builder span lookahead state)
    (ordered : log.Ordered recordStamp)
    (calm : ∀ fault, (builder.build (state.arrive lookahead).snapshot).outcome = .error fault →
      ∃ gap, fault = .noSeed gap) : ∃ next, state.advance lookahead = .ok next := by
  obtain ⟨⟨count, counted⟩, -⟩ := behind.arrive ordered
  have sameBuilder : (state.arrive lookahead).builder = builder := behind.sameBuilder
  rw [← sameBuilder] at calm
  obtain ⟨outcome, processed⟩ := Analyzer.exists_outcome calm
  rw [advance_eq]
  simp only [counted, processed, bind, Except.bind, pure, Except.pure]
  exact ⟨_, rfl⟩

/-- Between two gaps from either end of what was fed, the window of a dense stream is full. -/
theorem window_covered (behind : Behind log builder span lookahead state)
    (ordered : log.Ordered recordStamp) {stream : Stream} {gap start : Int} (positive : 1 ≤ gap)
    (dense : Dense gap start (log.stamped recordStamp stream)) (begun : start ≤ state.clock)
    {final : Stamped (Payload α stream)}
    (last : (log.stamped recordStamp stream).getLast? = some final)
    (covered : state.clock + lookahead ≤ final.stamp)
    (often : state.analyzer.step + 2 * gap ≤ lookahead - span) :
    ((state.arrive lookahead).snapshot.window stream).isReady = true ∧
      ((state.arrive lookahead).snapshot.window stream).Reaches (state.clock + lookahead - gap) := by
  have forward := state.analyzer.step_pos
  have playing := (behind.arrive ordered).2.1
  have inside : ∀ record ∈ log.stamped recordStamp stream,
      state.clock + state.analyzer.step ≤ record.stamp → record.stamp ≤ state.clock + lookahead →
        record ∈ ((state.arrive lookahead).snapshot.window stream).toList := by
    intro record member after before
    rw [behind.toList_arrive ordered]
    simp [member, after, before]
  obtain ⟨late, lateMember, lateAfter, lateBefore⟩ :=
    dense.exists_within positive (show start ≤ state.clock + lookahead by omega) last covered
  -- The first record that is not evicted comes less than a gap behind the new clock.
  obtain ⟨early, earlyMember, earlyAfter, earlyBefore⟩ := dense.exists_within positive
    (show start ≤ state.clock + state.analyzer.step + gap - 1 by omega) last (by omega)
  have lateInside := inside late lateMember (by omega) lateBefore
  have earlyInside := inside early earlyMember (by omega) (by omega)
  constructor
  · apply (playing.holds stream).inOrder.isReady_of_mem earlyInside lateInside
    rw [playing.sameSpan]
    omega
  · exact ⟨late, lateInside, lateAfter⟩

end Behind

end RunState

namespace Run.Setup

variable {settings : RunSettings α} {log : DriveLog α}

theorem behind (setup : Setup settings log) :
    RunState.Behind log setup.builder setup.span.toNat setup.lookahead setup.first := by
  refine ⟨rfl, fun _ _ => false, Replay.Playing.start .., ?_⟩
  intro stream stamp never
  cases never

theorem exists_after (setup : Setup settings log) (ordered : log.Ordered recordStamp) {count : Nat}
    (calm : ∀ earlier < count, ∀ state, setup.first.after setup.lookahead earlier = .ok state →
      ∀ fault, (setup.builder.build (state.arrive setup.lookahead).snapshot).outcome = .error fault →
        ∃ gap, fault = .noSeed gap) :
    ∃ state, setup.first.after setup.lookahead count = .ok state ∧
      RunState.Behind log setup.builder setup.span.toNat setup.lookahead state := by
  induction count with
  | zero => exact ⟨setup.first, rfl, setup.behind⟩
  | succ count ih =>
      obtain ⟨state, reached, behind⟩ := ih fun earlier before => calm earlier (by omega)
      obtain ⟨next, advanced⟩ :=
        behind.exists_advance ordered (calm count (Nat.lt_succ_self count) state reached)
      refine ⟨next.state, ?_, behind.advance ordered advanced⟩
      rw [RunState.after_succ, reached]
      simp only [advanced, bind, Except.bind, pure, Except.pure]

theorem endTime_eq (setup : Setup settings log) {final : Stamped (Odometry α)}
    (last : (log.stamped recordStamp .odometry).getLast? = some final) :
    setup.endTime = final.stamp := by
  have ends := setup.ends
  rw [log.stamped_odometry, List.getLast?_map, Option.map_eq_some_iff] at last
  obtain ⟨odometry, found, rfl⟩ := last
  rw [DriveLog.endTime, found, Except.ok.injEq] at ends
  exact ends.symm

end Run.Setup

namespace RunState.Behind

variable {log : DriveLog α} {builder : Builder α} {span : Nat} {lookahead : Int}
  {state : RunState α}

theorem exists_valid (behind : Behind log builder span lookahead state)
    (ordered : log.Ordered recordStamp)
    (ready : (state.arrive lookahead).snapshot.isReady = true) {reach : Int} (positive : 0 ≤ reach)
    (within : builder.horizon.Within reach)
    (reaches : (state.arrive lookahead).snapshot.Reaches
      ((state.arrive lookahead).snapshot.clock + reach))
    (planned : ∀ plan, (log.stamped recordStamp .plan).find? (fun plan =>
        decide ((state.arrive lookahead).snapshot.clock < plan.stamp)) = some plan →
      plan.value.points ≠ [])
    (calm : ∀ fault, (builder.build (state.arrive lookahead).snapshot).outcome = .error fault →
      (state.arrive lookahead).snapshot.seed = .error fault) :
    ∃ next, state.advance lookahead = .ok next ∧ next.tick.isValid = true := by
  have playing := (behind.arrive ordered).2.1
  have kept := playing.kept
  have sameBuilder : (state.arrive lookahead).builder = builder := behind.sameBuilder
  have seeded : ¬ ∃ gap, (state.arrive lookahead).snapshot.seed = .error (.noSeed gap) := by
    rw [kept.seed_fails_iff reaches (by omega)]
    rintro ⟨plan, current, empty⟩
    exact planned plan (playing.find?_of_queryAfter (Int.le_refl _) current) empty
  obtain ⟨next, advanced⟩ := behind.exists_advance ordered fun fault failed =>
    Snapshot.exists_gap_of_seed (calm fault failed)
  refine ⟨next, advanced, ?_⟩
  obtain ⟨-, outcome, processed, ticked⟩ := eq_of_advance advanced
  rw [RunTick.isValid, ticked]
  have full := kept.neverShort_build reaches positive within
  rw [← sameBuilder] at full calm
  have waits := Analyzer.process_waits_iff ready full processed
  cases valid : outcome.isReady with
  | true => rfl
  | false =>
      obtain ⟨gap, failed⟩ := waits.mp valid
      exact absurd ⟨gap, calm _ failed⟩ seeded

end RunState.Behind

namespace Run.Setup

theorem windows_covered {settings : RunSettings Float} {log : DriveLog Float}
    (setup : Setup settings log) (ordered : log.Ordered recordStamp) {gap : Int} (positive : 1 ≤ gap)
    (dense : ∀ stream, Dense gap setup.start (log.stamped recordStamp stream))
    (often : setup.step + 2 * gap ≤ setup.reach) {count : Nat}
    (covered : ∀ stream, ∀ record, (log.stamped recordStamp stream).getLast? = some record →
      setup.start + count * setup.step + setup.span + setup.reach ≤ record.stamp)
    {state : RunState Float} (reached : setup.first.after setup.lookahead count = .ok state)
    (behind : RunState.Behind log setup.builder setup.span.toNat setup.lookahead state) :
    (state.arrive setup.lookahead).snapshot.isReady = true ∧
      (state.arrive setup.lookahead).snapshot.Reaches (state.clock + setup.lookahead - gap) ∧
      state.clock ≤ setup.endTime := by
  obtain ⟨moved, sameStep⟩ := RunState.after_clock reached
  have clock : state.clock = setup.start + count * setup.step := moved
  have step : state.analyzer.step = setup.step := sameStep
  have ahead : setup.lookahead = setup.span + setup.reach := rfl
  have forward := setup.step_pos
  have width := setup.span_nonneg
  have elapsed := Int.mul_nonneg (Int.natCast_nonneg count) (Int.le_of_lt forward)
  have windows (stream : Stream) :
      ((state.arrive setup.lookahead).snapshot.window stream).isReady = true ∧
        ((state.arrive setup.lookahead).snapshot.window stream).Reaches
          (state.clock + setup.lookahead - gap) := by
    obtain ⟨latest, found⟩ := (dense stream).exists_last
    have bound := covered stream latest found
    exact behind.window_covered ordered positive (dense stream) (by omega) found (by omega) (by omega)
  refine ⟨List.all_eq_true.mpr fun stream _ => (windows stream).1, fun stream => (windows stream).2, ?_⟩
  obtain ⟨latest, found⟩ := (dense .odometry).exists_last
  have bound := covered .odometry latest found
  rw [setup.endTime_eq found]
  omega

/-- No tick is lost that all streams of a drive in order cover: if two gaps and a step fit the reach,
and a gap and a step fit the lookahead behind the last step of the horizon, a run whose builds do not
fail gets to the tick, and it is valid if the next plan has points. -/
theorem covered_tick_valid {settings : RunSettings Float} {log : DriveLog Float}
    (setup : Setup settings log) (ordered : log.Ordered recordStamp) {gap last : Int}
    (positive : 1 ≤ gap)
    (dense : ∀ stream, Dense gap setup.start (log.stamped recordStamp stream))
    (final : setup.builder.horizon.stepOffset (setup.builder.horizon.steps - 1) = .ok last)
    (often : setup.step + 2 * gap ≤ setup.reach)
    (wide : setup.step + gap ≤ setup.span + setup.reach - last) (count : Nat)
    (covered : ∀ stream, ∀ record, (log.stamped recordStamp stream).getLast? = some record →
      setup.start + count * setup.step + setup.span + setup.reach ≤ record.stamp)
    (calm : ∀ earlier < count, ∀ state, setup.first.after setup.lookahead earlier = .ok state →
      ∀ fault, (setup.builder.build (state.arrive setup.lookahead).snapshot).outcome = .error fault →
        ∃ missing, fault = .noSeed missing) :
    ∃ state, setup.first.after setup.lookahead count = .ok state ∧ state.clock ≤ setup.endTime ∧
      let arrived := (state.arrive setup.lookahead).snapshot
      arrived.clock = setup.start + (count + 1) * setup.step ∧
      ((∀ plan, (log.stamped recordStamp .plan).find? (fun plan =>
          decide (arrived.clock < plan.stamp)) = some plan → plan.value.points ≠ []) →
        (∀ fault, (setup.builder.build arrived).outcome = .error fault →
          arrived.seed = .error fault) →
        ∃ next, state.advance setup.lookahead = .ok next ∧ next.tick.clock = arrived.clock ∧
          next.tick.isValid = true ∧
          ∀ run, ofLog settings log = .ok run → run.ticks[count]? = some next.tick) := by
  obtain ⟨state, reached, behind⟩ := setup.exists_after ordered calm
  obtain ⟨moved, sameStep⟩ := RunState.after_clock reached
  have clock : state.clock = setup.start + count * setup.step := moved
  have step : state.analyzer.step = setup.step := sameStep
  have ahead : setup.lookahead = setup.span + setup.reach := rfl
  have arrival := state.arrive_clock setup.lookahead
  obtain ⟨ready, full, due⟩ :=
    setup.windows_covered ordered positive dense often covered reached behind
  have reaches : (state.arrive setup.lookahead).snapshot.Reaches
      ((state.arrive setup.lookahead).snapshot.clock + last) := by
    intro stream
    apply (full stream).earlier
    omega
  refine ⟨state, reached, due, ?_, ?_⟩
  · rw [arrival, clock, step, Int.add_mul]
    omega
  · intro planned spared
    obtain ⟨next, advanced, valid⟩ := behind.exists_valid ordered ready
      (setup.builder.horizon.forward.last_nonneg final) (setup.builder.horizon.steady.within final)
      reaches planned spared
    refine ⟨next, advanced, ?_, valid, ?_⟩
    · rw [RunState.advance_tick_clock advanced, arrival]
    · intro run ran
      exact setup.getElem?_ticks ran reached due advanced

theorem build_ne_error_of_isValid {settings : RunSettings Float} {log : DriveLog Float}
    (setup : Setup settings log) {run : Run Float} (ran : ofLog settings log = .ok run) {count : Nat}
    (valid : (run.ticks.map RunTick.isValid)[count]? = some true) {state : RunState Float}
    (reached : setup.first.after setup.lookahead count = .ok state) (fault : Fault Float) :
    (setup.builder.build (state.arrive setup.lookahead).snapshot).outcome ≠ .error fault := by
  rw [List.getElem?_map, Option.map_eq_some_iff] at valid
  obtain ⟨tick, found, ready⟩ := valid
  obtain ⟨same, ranking, again, done, -⟩ := setup.build_of_getElem? ran found ready
  rw [reached, Except.ok.injEq] at again
  rw [again, done]
  intro failed
  cases failed

end Run.Setup

namespace Run

theorem evenDrive_dense (start : Int) (count : Nat) (stream : Stream) :
    Dense 100000000 start ((evenDrive start (count + 1)).stamped recordStamp stream) := by
  have stamps := stamps_evenDrive start (count + 1) stream
  constructor
  · rw [List.range_succ_eq_map, List.map_cons] at stamps
    obtain ⟨first, rest, listed, zero, -⟩ := List.map_eq_cons_iff.mp stamps
    exact ⟨first, by rw [listed, List.head?_cons], by omega⟩
  · have chained : (((evenDrive start (count + 1)).stamped recordStamp stream).map Stamped.stamp).IsChain
        fun early late => late - early ≤ 100000000 := by
      rw [stamps, List.isChain_map, List.isChain_range_succ]
      intro index inside
      omega
    exact (List.isChain_map _).mp chained

theorem stamp_of_getLast?_evenDrive {start : Int} {count : Nat} {stream : Stream}
    {record : Stamped (Payload Float stream)}
    (last : ((evenDrive start (count + 1)).stamped recordStamp stream).getLast? = some record) :
    record.stamp = start + count * 100000000 := by
  have stamps := congrArg List.getLast? (stamps_evenDrive start (count + 1) stream)
  rw [List.getLast?_map, last, List.range_succ, List.map_append, List.map_singleton,
    List.getLast?_concat, Option.map_some, Option.some.injEq] at stamps
  exact stamps

theorem evenDrive_points_ne_nil {start : Int} {count : Nat} {plan : Stamped (Plan Float)}
    (member : plan ∈ (evenDrive start count).stamped recordStamp .plan) : plan.value.points ≠ [] := by
  have source := List.mem_map_of_mem (f := Stamped.value) member
  rw [DriveLog.stamped, map_value_stampAll ((evenDrive_ordered start count).readable .plan)] at source
  obtain ⟨stamp, -, same⟩ := List.mem_map.mp source
  rw [← same]
  exact List.cons_ne_nil _ _

theorem evenDrive_covered_tick :
    ∃ setup : Setup evenSettings (evenDrive 0 10), ∃ state next,
      setup.first.after setup.lookahead 2 = .ok state ∧
      state.advance setup.lookahead = .ok next ∧
      next.tick.clock = 300000000 ∧ next.tick.isValid = true := by
  have ticked : (ofLog evenSettings (evenDrive 0 10)).toOption.map
      (fun run => run.ticks.map RunTick.isValid) =
        some [true, true, true, true, true, true, false, false, false, false] := by
    decide +kernel
  have paced : evenSettings.paces.toOption = some (100000000, 100000000, 500000000) := by
    decide +kernel
  have stepped : evenSettings.builder.toOption.map
      (fun made => (made.1.horizon.stepOffset (made.1.horizon.steps - 1)).toOption) =
        some (some 250000000) := by
    decide +kernel
  obtain ⟨run, ran, valid⟩ := exists_ok_of_map ticked
  obtain ⟨setup⟩ := exists_setup ran
  obtain ⟨span, step, reach⟩ := setup.eq_of_paces paced
  obtain ⟨made, built, final⟩ := exists_ok_of_map stepped
  rw [setup.built, Except.ok.injEq] at built
  rw [← built] at final
  have starts : (evenDrive 0 10).startTime = .ok 0 := rfl
  rw [setup.starts, Except.ok.injEq] at starts
  have builds (count : Nat) (early : count < 3) {state : RunState Float}
      (reached : setup.first.after setup.lookahead count = .ok state) (fault : Fault Float) :
      (setup.builder.build (state.arrive setup.lookahead).snapshot).outcome ≠ .error fault := by
    apply setup.build_ne_error_of_isValid ran _ reached
    have three : count = 0 ∨ count = 1 ∨ count = 2 := by omega
    rw [valid]
    rcases three with rfl | rfl | rfl <;> rfl
  have covered (stream : Stream) (record : Stamped (Payload Float stream))
      (last : ((evenDrive 0 10).stamped recordStamp stream).getLast? = some record) :
      setup.start + (2 : Nat) * setup.step + setup.span + setup.reach ≤ record.stamp := by
    have stamp : record.stamp = 0 + (9 : Nat) * 100000000 := stamp_of_getLast?_evenDrive last
    omega
  have dense (stream : Stream) :
      Dense 100000000 setup.start ((evenDrive 0 10).stamped recordStamp stream) := by
    rw [starts]
    exact evenDrive_dense 0 9 stream
  obtain ⟨state, reached, -, arrival, ticks⟩ := setup.covered_tick_valid (evenDrive_ordered 0 10)
    (by decide : (1 : Int) ≤ 100000000) dense
    (toOption_eq_some_iff.mp final) (by omega) (by omega) 2 covered
    (fun earlier before state reached fault failed =>
      absurd failed (builds earlier (by omega) reached fault))
  obtain ⟨next, advanced, clock, valid, -⟩ := ticks
    (fun plan found => evenDrive_points_ne_nil (List.mem_of_find?_eq_some found))
    (fun fault failed => absurd failed (builds 2 (by omega) reached fault))
  refine ⟨setup, state, next, reached, advanced, ?_, valid⟩
  rw [clock, arrival, starts, step]
  rfl

end Run

end ManeuverRanking
