import ManeuverRanking.Proofs.Analysis.Loop
import ManeuverRanking.Proofs.Replay.Source

/-!
How far the records reach ahead of a tick. They are fed before the clock moves, so the windows lose
one step of the lookahead, and a step as long as the horizon leaves them too short for any tick.
-/

namespace ManeuverRanking

variable {α : Type} [Scalar α]

namespace RunState

variable {state : RunState α} {lookahead : Int} {next : Advance α}

theorem outcome_of_not_ready (advanced : state.advance lookahead = .ok next)
    (waiting : (state.arrive lookahead).snapshot.isReady = false) :
    next.tick.outcome = .notReady (.window next.tick.clock) := by
  obtain ⟨-, outcome, processed, ticked⟩ := eq_of_advance advanced
  rw [Analyzer.process, waiting] at processed
  cases processed
  rw [ticked]

theorem isReady_of_isValid (advanced : state.advance lookahead = .ok next)
    (valid : next.tick.isValid = true) : (state.arrive lookahead).snapshot.isReady = true := by
  cases ready : (state.arrive lookahead).snapshot.isReady with
  | true => rfl
  | false =>
      rw [RunTick.isValid, outcome_of_not_ready advanced ready] at valid
      cases valid

structure Paced (log : DriveLog α) (span : Nat) (lookahead step : Int) (state : RunState α) :
    Prop where
  sameLog : state.replay.log = log
  sameStep : state.analyzer.step = step
  drawn : state.analyzer.snapshot.Drawn recordStamp log span (state.clock + lookahead - step)

variable {log : DriveLog α} {span : Nat} {step : Int}

theorem Paced.arrive (paced : Paced log span lookahead step state) :
    let arrived := (state.arrive lookahead).snapshot
    arrived.Drawn recordStamp log span (arrived.clock + lookahead - step) ∧ arrived.Fresh := by
  have forward := state.analyzer.step_pos
  have clock := state.arrive_clock lookahead
  rw [paced.sameStep] at forward clock
  have ahead : state.clock + lookahead - step ≤ state.clock + lookahead := by omega
  have fed := (paced.drawn.feedUntil paced.sameLog ahead).1
  constructor
  · apply Snapshot.Drawn.later (fed.advance state.analyzer.step)
    omega
  · exact fed.kept.fresh_advance _

theorem Paced.advance (paced : Paced log span lookahead step state)
    (advanced : state.advance lookahead = .ok next) : Paced log span lookahead step next.state := by
  have forward := state.analyzer.step_pos
  rw [paced.sameStep] at forward
  have ahead : state.clock + lookahead - step ≤ state.clock + lookahead := by omega
  constructor
  · rw [(eq_of_advance advanced).1]
    exact (paced.drawn.feedUntil paced.sameLog ahead).2
  · rw [advance_step advanced]
    exact paced.sameStep
  · rw [clock, advance_snapshot advanced]
    exact paced.arrive.1

end RunState

namespace Run.Setup

variable {settings : RunSettings α} {log : DriveLog α}

theorem paced (setup : Setup settings log) {count : Nat} {state : RunState α}
    (reached : setup.first.after setup.lookahead count = .ok state) :
    RunState.Paced log setup.span.toNat setup.lookahead setup.step state := by
  apply RunState.after_keeps (fun _ _ paced advanced => RunState.Paced.advance paced advanced) _ reached
  constructor
  · rfl
  · rfl
  · exact Snapshot.Drawn.create setup.snapshot_create _

theorem isReady_eq_false (setup : Setup settings log) (long : setup.reach ≤ setup.step) {count : Nat}
    {state : RunState α} (reached : setup.first.after setup.lookahead count = .ok state) :
    (state.arrive setup.lookahead).snapshot.isReady = false := by
  obtain ⟨drawn, fresh⟩ := (setup.paced reached).arrive
  cases ready : (state.arrive setup.lookahead).snapshot.isReady with
  | false => rfl
  | true =>
      -- A record more than the span ahead, but no further than the lookahead less the step.
      obtain ⟨-, -, stamp, -, late, early⟩ := drawn.exists_of_isReady fresh ready .odometry
      have width := setup.span_nonneg
      have ahead : setup.lookahead = setup.span + setup.reach := rfl
      omega

/-- Where a step is no shorter than the horizon, no tick is ever valid, however long the drive is and
however many records it has. -/
theorem starved (setup : Setup settings log) (long : setup.reach ≤ setup.step) :
    (∀ count before next, setup.first.after setup.lookahead count = .ok before →
      before.advance setup.lookahead = .ok next →
        next.tick.outcome = .notReady (.window next.tick.clock)) ∧
    ∀ run, ofLog settings log = .ok run → ∀ tick ∈ run.ticks,
      tick.isValid = false ∧ tick.outcome = .notReady (.window tick.clock) := by
  have each (count : Nat) (before : RunState α) (next : RunState.Advance α)
      (reached : setup.first.after setup.lookahead count = .ok before)
      (advanced : before.advance setup.lookahead = .ok next) :
      next.tick.outcome = .notReady (.window next.tick.clock) :=
    RunState.outcome_of_not_ready advanced (setup.isReady_eq_false long reached)
  refine ⟨each, ?_⟩
  intro run ran tick member
  obtain ⟨count, found⟩ := List.getElem?_of_mem member
  obtain ⟨before, next, reached, -, advanced, rfl⟩ := setup.exists_of_getElem? ran found
  have waiting := each count before next reached advanced
  refine ⟨?_, waiting⟩
  rw [RunTick.isValid, waiting]
  rfl

end Run.Setup

namespace Run

def longSettings : RunSettings Float :=
  { evenSettings with timeStep := 0.5 }

theorem evenDrive_starved : ∃ setup : Setup longSettings (evenDrive 0 20), setup.reach ≤ setup.step ∧
    ∃ run, ofLog longSettings (evenDrive 0 20) = .ok run ∧ run.ticks.length = 4 ∧
      ∀ tick ∈ run.ticks, tick.isValid = false := by
  have ticked : (ofLog longSettings (evenDrive 0 20)).toOption.map (fun run => run.ticks.length) =
      some 4 := by
    decide +kernel
  have paced : longSettings.paces.toOption = some (100000000, 500000000, 500000000) := by
    decide +kernel
  obtain ⟨run, ran, length⟩ := exists_ok_of_map ticked
  obtain ⟨setup⟩ := exists_setup ran
  obtain ⟨-, step, reach⟩ := setup.eq_of_paces paced
  have long : setup.reach ≤ setup.step := by omega
  obtain ⟨-, each⟩ := setup.starved long
  exact ⟨setup, long, run, ran, length, fun tick member => (each run ran tick member).1⟩

end Run

end ManeuverRanking
