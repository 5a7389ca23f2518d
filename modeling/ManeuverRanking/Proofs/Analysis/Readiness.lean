import ManeuverRanking.Proofs.Analysis.Course
import ManeuverRanking.Proofs.Candidate.Reach
import ManeuverRanking.Proofs.Horizon.Steady

/-!
What readiness is good for. Whatever an analyzer was called with before, a tick that finds all its
windows ready waits for nothing but a plan with points, if the windows are as wide as the horizon is
long.
-/

namespace ManeuverRanking

variable {α : Type} [Scalar α]

theorem RunSettings.sampler_of_builder {settings : RunSettings α} {builder : Builder α}
    {notices : List (Notice α)} (built : settings.builder = .ok (builder, notices)) :
    builder.sampler = settings.sampler := by
  simp only [RunSettings.builder, bind_eq_ok_iff, pure, Except.pure, Except.ok.injEq] at built
  obtain ⟨horizon, -, scorer, -, created⟩ := built
  unfold Builder.create at created
  split at created <;> cases created <;> rfl

namespace Analyzer

inductive Call (α : Type) where
  | append (stream : Stream) (value : Payload α stream)
  | update (step : Option Int)
  | tick

def call (analyzer : Analyzer α) : Call α → Analyzer α
  | .append stream value =>
      match analyzer.snapshot.append stream value with
      | .ok (snapshot, _) => analyzer.withSnapshot snapshot
      | .error _ => analyzer
  | .update step => analyzer.update step
  | .tick => analyzer.tick.analyzer

def callAll (analyzer : Analyzer α) : List (Call α) → Analyzer α
  | [] => analyzer
  | first :: rest => (analyzer.call first).callAll rest

structure Runs (builder : Builder α) (step : Int) (span : Nat) (analyzer : Analyzer α) : Prop where
  sameBuilder : analyzer.builder = builder
  sameStep : analyzer.step = step
  kept : analyzer.snapshot.Kept span

variable {builder : Builder α} {step : Int} {span : Nat} {analyzer : Analyzer α}

theorem Runs.call (runs : Runs builder step span analyzer) (asked : Call α) :
    Runs builder step span (analyzer.call asked) := by
  cases asked with
  | append stream value =>
      simp only [Analyzer.call]
      split
      · rename_i snapshot record appended
        exact ⟨runs.sameBuilder, runs.sameStep, runs.kept.append appended⟩
      · exact runs
  | update moved => exact ⟨runs.sameBuilder, runs.sameStep, runs.kept.advance _⟩
  | tick =>
      constructor
      · rw [Analyzer.call, tick, process_builder]
        exact runs.sameBuilder
      · rw [Analyzer.call, tick_step]
        exact runs.sameStep
      · rw [Analyzer.call, tick, process_snapshot]
        exact runs.kept.advance _

theorem Runs.callAll (runs : Runs builder step span analyzer) (calls : List (Call α)) :
    Runs builder step span (analyzer.callAll calls) := by
  induction calls generalizing analyzer with
  | nil => exact runs
  | cons first rest ih => exact ih (runs.call first)

theorem process_waits_iff (ready : analyzer.snapshot.isReady = true)
    (full : NeverShort (analyzer.builder.build analyzer.snapshot).outcome)
    {outcome : Outcome Shortage (Analysis α)} (done : analyzer.process.outcome = .ok outcome) :
    outcome.isReady = false ↔
      ∃ gap, (analyzer.builder.build analyzer.snapshot).outcome = .error (.noSeed gap) := by
  unfold process at done
  rw [if_pos ready] at done
  split at done
  · rename_i ranking built
    cases done
    simp [built, Outcome.isReady]
  · rename_i cause built
    exact absurd built (full cause)
  · rename_i gap built
    cases done
    simp [built, Outcome.isReady]
  · cases done

namespace Runs

variable {reach : Int}

theorem reaches_advance (runs : Runs builder step span analyzer) (wide : reach ≤ span) {moved : Int}
    (ready : (analyzer.snapshot.advance moved).isReady = true) :
    (analyzer.snapshot.advance moved).Reaches ((analyzer.snapshot.advance moved).clock + reach) := by
  intro stream
  apply ((runs.kept.advance moved).reaches (runs.kept.fresh_advance moved) ready stream).earlier
  omega

theorem full_of_isReady (runs : Runs builder step span analyzer) (positive : 0 ≤ reach)
    (within : builder.horizon.Within reach) (wide : reach ≤ span) {moved : Int}
    (ready : (analyzer.snapshot.advance moved).isReady = true) :
    (∀ stream, ((analyzer.snapshot.advance moved).current stream).isSome = true) ∧
      ∀ stream cause,
        (analyzer.snapshot.advance moved).collect stream builder.horizon ≠ .ok (.notReady cause) := by
  have kept := runs.kept.advance moved
  have reaches := runs.reaches_advance wide ready
  constructor
  · intro stream
    exact kept.isSome_queryAfter reaches stream (by omega)
  · exact kept.neverShort_collect reaches positive within

theorem tick_waits_iff_or (runs : Runs builder step span analyzer) (positive : 0 ≤ reach)
    (within : builder.horizon.Within reach) (wide : reach ≤ span) (quiet : builder.Quiet)
    {outcome : Outcome Shortage (Analysis α)} (done : analyzer.tick.outcome = .ok outcome) :
    outcome.isReady = false ↔ (analyzer.snapshot.advance step).isReady = false ∨
      ∃ plan, (analyzer.snapshot.advance step).current .plan = some plan ∧
        plan.value.points = [] := by
  have arrived : (analyzer.update none).snapshot = analyzer.snapshot.advance step := by
    rw [← runs.sameStep]
    rfl
  cases ready : (analyzer.snapshot.advance step).isReady with
  | false =>
      simp only [true_or, iff_true]
      rw [tick, process, arrived, ready] at done
      cases done
      rfl
  | true =>
      have kept := runs.kept.advance step
      have reaches := runs.reaches_advance wide ready
      have building : (analyzer.update none).builder = builder := runs.sameBuilder
      have full := kept.neverShort_build reaches positive within
      have waits : outcome.isReady = false ↔ ∃ gap, (builder.build
          (analyzer.snapshot.advance step)).outcome = .error (.noSeed gap) := by
        rw [← arrived] at ready full ⊢
        rw [← building] at full ⊢
        exact process_waits_iff ready full done
      have gaps := kept.seed_fails_iff reaches (by omega)
      rw [waits]
      simp only [build_eq_noSeed_iff (quiet.on _), gaps, Bool.true_eq_false, false_or]

end Runs

/-- However an analyzer was called before, a tick waits exactly as long as the windows are not ready
or the first plan after the clock has no points. Behind any advance that leaves the windows ready,
there are the records a build starts from and those at all steps of the horizon. -/
theorem tick_waits_iff {keys : StampKeys α} {clock width : Int} {snapshot : Snapshot α}
    (created : Snapshot.create keys clock width = .ok snapshot)
    (started : Analyzer.create snapshot builder step = .ok analyzer)
    (forward : builder.horizon.Forward) (steady : builder.horizon.Steady) {reach : Int}
    (last : builder.horizon.stepOffset (builder.horizon.steps - 1) = .ok reach)
    (wide : reach ≤ width) (quiet : builder.Quiet) (calls : List (Call α)) :
    let called := analyzer.callAll calls
    (∀ outcome, called.tick.outcome = .ok outcome → (outcome.isReady = false ↔
      (called.snapshot.advance step).isReady = false ∨
        ∃ plan, (called.snapshot.advance step).current .plan = some plan ∧ plan.value.points = [])) ∧
    ∀ moved, (called.snapshot.advance moved).isReady = true →
      (∀ stream ∈ Snapshot.seedStreams,
        ((called.snapshot.advance moved).current stream).isSome = true) ∧
      ∀ stream cause,
        (called.snapshot.advance moved).collect stream builder.horizon ≠ .ok (.notReady cause) := by
  intro called
  obtain ⟨here, sameBuilder, sameStep⟩ := create_eq_ok started
  have valid : 0 ≤ width := ((Snapshot.create_eq_ok_iff ..).mp created).1
  have fresh : Runs builder step width.toNat analyzer :=
    ⟨sameBuilder, sameStep, here ▸ Snapshot.Kept.create created⟩
  have runs : Runs builder step width.toNat called := fresh.callAll calls
  have positive := forward.last_nonneg last
  have within := steady.within last
  have spanned : reach ≤ width.toNat := by omega
  constructor
  · intro outcome done
    exact runs.tick_waits_iff_or positive within spanned quiet done
  · intro moved ready
    obtain ⟨found, full⟩ := runs.full_of_isReady positive within spanned ready
    exact ⟨fun stream _ => found stream, full⟩

def ofEven : Except (Fault Float) (Analyzer Float) := do
  let sampler := Sampler.constantSpeeds [1.0] 2 0.0
  let (builder, _) ← { Run.evenSettings with sampler := some sampler }.builder
  let snapshot ← Snapshot.create recordStamp 0 300000000
  Analyzer.create snapshot builder 100000000

def evenCalls : List (Call Float) :=
  (Run.evenDrive 0 10).entries.map (fun entry => .append entry.1 entry.2) ++
    [.append .steering ⟨0, 0.0⟩, .tick, .update (some 150000000)]

theorem ofEven_eq_ok {analyzer : Analyzer Float} (made : ofEven = .ok analyzer) :
    ∃ builder snapshot, builder.Quiet ∧
      Snapshot.create recordStamp 0 300000000 = .ok snapshot ∧
      Analyzer.create snapshot builder 100000000 = .ok analyzer := by
  simp only [ofEven, bind_eq_ok_iff] at made
  obtain ⟨⟨builder, notices⟩, built, snapshot, created, started⟩ := made
  refine ⟨builder, snapshot, ?_, created, started⟩
  intro sampler configured request
  rw [RunSettings.sampler_of_builder built, Option.some.injEq] at configured
  subst configured
  exact seedless_constantSpeeds ..

theorem evenDrive_tick_ready : ∃ analyzer, ofEven = .ok analyzer ∧
    let arrived := (analyzer.callAll evenCalls).snapshot.advance 100000000
    arrived.isReady = true ∧ (∃ outcome, (analyzer.callAll evenCalls).tick.outcome = .ok outcome ∧
      outcome.isReady = true) ∧
    (¬ ∃ plan, arrived.current .plan = some plan ∧ plan.value.points = []) ∧
    ∀ stream cause, arrived.collect stream analyzer.builder.horizon ≠ .ok (.notReady cause) := by
  have evaluated : ofEven.toOption.map (fun analyzer =>
      ((analyzer.builder.horizon.stepOffset (analyzer.builder.horizon.steps - 1)).toOption,
        ((analyzer.callAll evenCalls).snapshot.advance 100000000).isReady,
        (analyzer.callAll evenCalls).tick.outcome.toOption.map Outcome.isReady)) =
      some (some 250000000, true, some true) := by
    decide +kernel
  obtain ⟨analyzer, made, told⟩ := exists_ok_of_map evaluated
  simp only [Prod.mk.injEq] at told
  obtain ⟨last, ready, ticked⟩ := told
  obtain ⟨builder, snapshot, quiet, created, started⟩ := ofEven_eq_ok made
  obtain ⟨outcome, done, valid⟩ := exists_ok_of_map ticked
  obtain ⟨-, rfl, -⟩ := create_eq_ok started
  obtain ⟨waits, full⟩ := tick_waits_iff created started analyzer.builder.horizon.forward
    analyzer.builder.horizon.steady (toOption_eq_some_iff.mp last) (by decide) quiet evenCalls
  refine ⟨analyzer, made, ready, ⟨outcome, done, valid⟩, ?_, (full 100000000 ready).2⟩
  intro empty
  have waiting := (waits outcome done).mpr (.inr empty)
  rw [valid] at waiting
  cases waiting

end Analyzer

end ManeuverRanking
