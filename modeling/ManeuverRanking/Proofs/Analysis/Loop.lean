import ManeuverRanking.Proofs.Analysis.Course

/-!
The loop of a run. What a run fixes before its first tick is its setup; behind that, the ticks are the
advances from the first state, one after the other, as long as the clock is not past the end.
-/

namespace ManeuverRanking

variable {α : Type} [Scalar α]

namespace RunState

variable {state : RunState α} {lookahead endTime : Int}

theorem arrive_clock (state : RunState α) (lookahead : Int) :
    (state.arrive lookahead).snapshot.clock = state.clock + state.analyzer.step := by
  simp only [arrive, Analyzer.update, Analyzer.withSnapshot, Snapshot.advance_clock,
    Replay.feedUntil_clock]
  rfl

theorem eq_of_advance {next : Advance α} (advanced : state.advance lookahead = .ok next) :
    let fed := state.replay.feedUntil state.analyzer.snapshot (state.clock + lookahead)
    let arrived := state.arrive lookahead
    next.state = ⟨fed.replay, arrived.process.analyzer⟩ ∧
      ∃ outcome, arrived.process.outcome = .ok outcome ∧
        next.tick = ⟨arrived.snapshot.clock, outcome⟩ := by
  simp only [advance_eq, bind_eq_ok_iff, pure, Except.pure, Except.ok.injEq] at advanced
  obtain ⟨_, -, outcome, processed, rfl⟩ := advanced
  exact ⟨rfl, outcome, processed, rfl⟩

theorem advance_step {next : Advance α} (advanced : state.advance lookahead = .ok next) :
    next.state.analyzer.step = state.analyzer.step := by
  rw [(eq_of_advance advanced).1]
  exact Analyzer.process_step _

theorem advance_snapshot {next : Advance α} (advanced : state.advance lookahead = .ok next) :
    next.state.analyzer.snapshot = (state.arrive lookahead).snapshot := by
  rw [(eq_of_advance advanced).1]
  exact Analyzer.process_snapshot _

theorem advance_builder {next : Advance α} (advanced : state.advance lookahead = .ok next) :
    next.state.analyzer.builder = state.analyzer.builder := by
  rw [(eq_of_advance advanced).1]
  exact Analyzer.process_builder _

theorem advance_tick_clock {next : Advance α} (advanced : state.advance lookahead = .ok next) :
    next.tick.clock = state.clock + state.analyzer.step := by
  obtain ⟨-, outcome, -, ticked⟩ := eq_of_advance advanced
  rw [ticked, ← state.arrive_clock lookahead]

theorem build_of_isValid {next : Advance α} (advanced : state.advance lookahead = .ok next)
    (valid : next.tick.isValid = true) :
    ∃ ranking, (state.analyzer.builder.build (state.arrive lookahead).snapshot).outcome =
        .ok (.ready ranking) ∧
      next.tick.outcome = .ready ⟨next.tick.clock, ranking, false⟩ := by
  obtain ⟨-, outcome, processed, ticked⟩ := eq_of_advance advanced
  rw [ticked] at valid ⊢
  cases outcome with
  | notReady cause => cases valid
  | ready analysis =>
      obtain ⟨ranking, built, rfl⟩ := Analyzer.process_eq_ready processed
      exact ⟨ranking, built, rfl⟩

def after (lookahead : Int) : Nat → RunState α → Except (Fault α) (RunState α)
  | 0, state => .ok state
  | count + 1, state => do
      let next ← state.advance lookahead
      after lookahead count next.state

theorem after_succ (count : Nat) (state : RunState α) :
    after lookahead (count + 1) state = do
      let before ← after lookahead count state
      let next ← before.advance lookahead
      return next.state := by
  induction count generalizing state with
  | zero => rfl
  | succ count ih =>
      rw [after]
      conv => rhs; rw [after]
      cases state.advance lookahead with
      | error fault => rfl
      | ok next => exact ih next.state

theorem after_clock {count : Nat} {later : RunState α}
    (reached : after lookahead count state = .ok later) :
    later.clock = state.clock + count * state.analyzer.step ∧
      later.analyzer.step = state.analyzer.step := by
  induction count generalizing state with
  | zero =>
      cases reached
      simp
  | succ count ih =>
      simp only [after, bind_eq_ok_iff] at reached
      obtain ⟨next, advanced, rest⟩ := reached
      obtain ⟨clock, step⟩ := ih rest
      rw [advance_step advanced] at clock step
      refine ⟨?_, step⟩
      rw [clock, advance_clock advanced, Int.natCast_succ, Int.add_mul]
      omega

/-- What every advance keeps holds at all states that are reached. -/
theorem after_keeps {invariant : RunState α → Prop}
    (kept : ∀ state next, invariant state → state.advance lookahead = .ok next →
      invariant next.state)
    (holds : invariant state) {count : Nat} {later : RunState α}
    (reached : after lookahead count state = .ok later) : invariant later := by
  induction count generalizing state with
  | zero =>
      cases reached
      exact holds
  | succ count ih =>
      simp only [after, bind_eq_ok_iff] at reached
      obtain ⟨next, advanced, rest⟩ := reached
      exact ih (kept state next holds advanced) rest

variable {ticks : List (RunTick α × List (Notice α))}

theorem getElem?_ticksUntil {count : Nat} {before : RunState α}
    (ran : ticksUntil lookahead endTime state = .ok ticks)
    (reached : after lookahead count state = .ok before) (due : before.clock ≤ endTime) :
    ∃ next, before.advance lookahead = .ok next ∧ ticks[count]? = some (next.tick, next.notices) := by
  induction count generalizing state ticks with
  | zero =>
      cases reached
      rw [ticksUntil_eq, if_pos due] at ran
      simp only [bind_eq_ok_iff, pure, Except.pure, Except.ok.injEq] at ran
      obtain ⟨next, advanced, later, -, rfl⟩ := ran
      exact ⟨next, advanced, rfl⟩
  | succ count ih =>
      have first : state.clock ≤ endTime := by
        have moved := (after_clock reached).1
        have ahead := Int.mul_nonneg (Int.natCast_nonneg (count + 1))
          (Int.le_of_lt state.analyzer.step_pos)
        omega
      simp only [after, bind_eq_ok_iff] at reached
      obtain ⟨next, advanced, rest⟩ := reached
      rw [ticksUntil_eq, if_pos first, advanced] at ran
      simp only [bind_eq_ok_iff, Except.ok.injEq, exists_eq_left', pure, Except.pure] at ran
      obtain ⟨later, done, rfl⟩ := ran
      exact ih done rest

theorem after_of_getElem? {count : Nat} {pair : RunTick α × List (Notice α)}
    (ran : ticksUntil lookahead endTime state = .ok ticks) (found : ticks[count]? = some pair) :
    ∃ before next, after lookahead count state = .ok before ∧ before.clock ≤ endTime ∧
      before.advance lookahead = .ok next ∧ pair = (next.tick, next.notices) := by
  induction count generalizing state ticks with
  | zero =>
      rw [ticksUntil_eq] at ran
      split at ran
      · rename_i due
        simp only [bind_eq_ok_iff, pure, Except.pure, Except.ok.injEq] at ran
        obtain ⟨next, advanced, later, -, rfl⟩ := ran
        exact ⟨state, next, rfl, due, advanced, (Option.some.inj found).symm⟩
      · cases ran
        cases found
  | succ count ih =>
      rw [ticksUntil_eq] at ran
      split at ran
      · simp only [bind_eq_ok_iff, pure, Except.pure, Except.ok.injEq] at ran
        obtain ⟨next, advanced, later, done, rfl⟩ := ran
        obtain ⟨before, last, reached, due, final, same⟩ := ih done found
        refine ⟨before, last, ?_, due, final, same⟩
        rw [after, advanced]
        exact reached
      · cases ran
        cases found

theorem length_ticksUntil (ran : ticksUntil lookahead endTime state = .ok ticks)
    (due : state.clock ≤ endTime) :
    (ticks.length : Int) = (endTime - state.clock) / state.analyzer.step + 1 := by
  induction ticks generalizing state with
  | nil =>
      rw [ticksUntil_eq, if_pos due] at ran
      simp only [bind_eq_ok_iff, pure, Except.pure, Except.ok.injEq, reduceCtorEq, and_false,
        exists_false] at ran
  | cons first rest ih =>
      have positive := state.analyzer.step_pos
      rw [ticksUntil_eq, if_pos due] at ran
      simp only [bind_eq_ok_iff, pure, Except.pure, Except.ok.injEq, List.cons.injEq] at ran
      obtain ⟨next, advanced, later, done, -, rfl⟩ := ran
      have clock := advance_clock advanced
      -- The state behind the end has no tick of its own, but was reached by one.
      by_cases early : next.state.clock ≤ endTime
      · have counted := ih done early
        rw [advance_step advanced, clock] at counted
        have taken : endTime - state.clock =
            endTime - (state.clock + state.analyzer.step) + state.analyzer.step := by omega
        rw [List.length_cons, taken, Int.add_ediv_of_dvd_right (Int.dvd_refl _),
          Int.ediv_self (by omega), ← counted, Int.natCast_succ]
      · rw [ticksUntil_eq, if_neg early] at done
        cases done
        rw [Int.ediv_eq_zero_of_lt (by omega) (by omega)]
        rfl

end RunState

def RunSettings.paces (settings : RunSettings α) : Except (Fault α) (Int × Int × Int) := do
  let (builder, _) ← settings.builder
  let span ← nanoseconds settings.windowSpan
  let step ← nanoseconds settings.timeStep
  return (span, step, ← builder.horizon.stepOffset builder.horizon.steps)

namespace Run

structure Setup (settings : RunSettings α) (log : DriveLog α) where
  builder : Builder α
  notices : List (Notice α)
  span : Int
  step : Int
  reach : Int
  start : Int
  endTime : Int
  built : settings.builder = .ok (builder, notices)
  spans : nanoseconds settings.windowSpan = .ok span
  steps : nanoseconds settings.timeStep = .ok step
  reaches : builder.horizon.stepOffset builder.horizon.steps = .ok reach
  starts : log.startTime = .ok start
  ends : log.endTime = .ok endTime
  span_nonneg : 0 ≤ span
  step_pos : 0 < step

namespace Setup

variable {settings : RunSettings α} {log : DriveLog α}

def lookahead (setup : Setup settings log) : Int :=
  setup.span + setup.reach

def first (setup : Setup settings log) : RunState α :=
  ⟨.ofLog log, ⟨⟨setup.start, .ofFn fun stream => Window.empty (recordStamp stream) setup.span.toNat⟩,
    setup.builder, setup.step, none, setup.step_pos⟩⟩

theorem snapshot_create (setup : Setup settings log) :
    Snapshot.create recordStamp setup.start setup.span = .ok setup.first.analyzer.snapshot :=
  (Snapshot.create_eq_ok_iff ..).mpr ⟨setup.span_nonneg, rfl⟩

theorem eq_of_paces (setup : Setup settings log) {span step reach : Int}
    (told : settings.paces.toOption = some (span, step, reach)) :
    setup.span = span ∧ setup.step = step ∧ setup.reach = reach := by
  have paces : settings.paces = .ok (setup.span, setup.step, setup.reach) := by
    simp only [RunSettings.paces, setup.built, setup.spans, setup.steps, setup.reaches, bind,
      Except.bind, pure, Except.pure]
  rw [paces, toOption_eq_some_iff, Except.ok.injEq] at told
  simp only [Prod.mk.injEq] at told
  exact told

end Setup

variable {settings : RunSettings α} {log : DriveLog α} {run : Run α}

theorem exists_setup (ran : ofLog settings log = .ok run) : Nonempty (Setup settings log) := by
  simp only [ofLog, bind_eq_ok_iff] at ran
  obtain ⟨⟨builder, notices⟩, built, span, spans, step, steps, reach, reaches, start, starts,
    snapshot, created, analyzer, started, endTime, ends, -⟩ := ran
  have width := ((Snapshot.create_eq_ok_iff ..).mp created).1
  unfold Analyzer.create at started
  split at started
  · rename_i forward
    exact ⟨⟨builder, notices, span, step, reach, start, endTime, built, spans, steps, reaches, starts,
      ends, width, forward⟩⟩
  · cases started

namespace Setup

theorem ticksUntil_of_ofLog (setup : Setup settings log)
    (ran : ofLog settings log = .ok run) :
    ∃ ticks, RunState.ticksUntil setup.lookahead setup.endTime setup.first = .ok ticks ∧
      run.ticks = ticks.map Prod.fst := by
  simp only [ofLog, setup.built, setup.spans, setup.steps, setup.reaches, setup.starts, setup.ends,
    setup.snapshot_create, bind_eq_ok_iff, Except.ok.injEq, exists_eq_left', pure, Except.pure,
    Analyzer.create, setup.step_pos, dif_pos] at ran
  obtain ⟨ticks, done, rfl⟩ := ran
  exact ⟨ticks, done, rfl⟩

theorem exists_of_getElem? (setup : Setup settings log) (ran : ofLog settings log = .ok run)
    {count : Nat} {tick : RunTick α} (found : run.ticks[count]? = some tick) :
    ∃ before next, setup.first.after setup.lookahead count = .ok before ∧
      before.clock ≤ setup.endTime ∧ before.advance setup.lookahead = .ok next ∧
      tick = next.tick := by
  obtain ⟨ticks, done, listed⟩ := setup.ticksUntil_of_ofLog ran
  rw [listed, List.getElem?_map, Option.map_eq_some_iff] at found
  obtain ⟨pair, placed, rfl⟩ := found
  obtain ⟨before, next, reached, due, advanced, rfl⟩ := RunState.after_of_getElem? done placed
  exact ⟨before, next, reached, due, advanced, rfl⟩

theorem after_builder (setup : Setup settings log) {count : Nat} {state : RunState α}
    (reached : setup.first.after setup.lookahead count = .ok state) :
    state.analyzer.builder = setup.builder := by
  apply RunState.after_keeps _ _ reached
  · intro before next same advanced
    rw [RunState.advance_builder advanced]
    exact same
  · rfl

theorem build_of_getElem? (setup : Setup settings log) (ran : ofLog settings log = .ok run)
    {count : Nat} {tick : RunTick α} (found : run.ticks[count]? = some tick)
    (valid : tick.isValid = true) :
    ∃ state ranking, setup.first.after setup.lookahead count = .ok state ∧
      (setup.builder.build (state.arrive setup.lookahead).snapshot).outcome =
        .ok (.ready ranking) ∧
      tick.outcome = .ready ⟨tick.clock, ranking, false⟩ := by
  obtain ⟨state, next, reached, -, advanced, rfl⟩ := setup.exists_of_getElem? ran found
  obtain ⟨ranking, built, outcome⟩ := RunState.build_of_isValid advanced valid
  rw [setup.after_builder reached] at built
  exact ⟨state, ranking, reached, built, outcome⟩

theorem getElem?_ticks (setup : Setup settings log) (ran : ofLog settings log = .ok run)
    {count : Nat} {before : RunState α}
    (reached : setup.first.after setup.lookahead count = .ok before)
    (due : before.clock ≤ setup.endTime) {next : RunState.Advance α}
    (advanced : before.advance setup.lookahead = .ok next) :
    run.ticks[count]? = some next.tick := by
  obtain ⟨ticks, done, listed⟩ := setup.ticksUntil_of_ofLog ran
  obtain ⟨same, again, placed⟩ := RunState.getElem?_ticksUntil done reached due
  rw [advanced, Except.ok.injEq] at again
  rw [listed, List.getElem?_map, placed, again]
  rfl

end Setup

end Run

end ManeuverRanking
