import ManeuverRanking.Proofs.Analysis.Readiness

/-!
What an analyzer remembers. However it is called and whatever building comes to, its latest result
is that of the last attempt that was ready, and it is stale once a later attempt has found a gap in
the seed. A tick skipped for another reason leaves it as it is.
-/

namespace ManeuverRanking

def Analyzer.remember {α : Type} [Arithmetic α] (analyzer : Analyzer α) (analysis : Analysis α) :
    Analyzer α :=
  { analyzer with latest := some analysis }

variable {α : Type} [Scalar α]

@[reducible] def Building (α : Type) : Type :=
  Snapshot α → Except (Fault α) (Outcome Shortage (Ranking α))

namespace Analyzer

def building (analyzer : Analyzer α) : Building α := fun snapshot =>
  (analyzer.builder.build snapshot).outcome

def processWith (analyzer : Analyzer α) (building : Building α) : Tick α :=
  let clock := analyzer.snapshot.clock
  if analyzer.snapshot.isReady then
    match building analyzer.snapshot with
    | .error (.noSeed gap) =>
        ⟨analyzer.markStale, .ok (.notReady (.seed gap)), [.tickSkipped clock gap]⟩
    | .error fault => ⟨analyzer, .error fault, []⟩
    | .ok (.notReady cause) => ⟨analyzer, .ok (.notReady cause), []⟩
    | .ok (.ready ranking) =>
        let analysis : Analysis α := ⟨clock, ranking, false⟩
        ⟨analyzer.remember analysis, .ok (.ready analysis), []⟩
  else ⟨analyzer, .ok (.notReady (.window clock)), []⟩

theorem process_eq_processWith (analyzer : Analyzer α) :
    analyzer.process = analyzer.processWith analyzer.building := by
  unfold process processWith building
  dsimp only
  cases (analyzer.builder.build analyzer.snapshot).outcome with
  | ok outcome => cases outcome <;> rfl
  | error fault => cases fault <;> rfl

/-- An analyzer about to rank candidates, with what building will come to. -/
structure Attempt (α : Type) [Arithmetic α] where
  analyzer : Analyzer α
  building : Building α

namespace Attempt

def tick (attempt : Attempt α) : Tick α :=
  attempt.analyzer.processWith attempt.building

def clock (attempt : Attempt α) : Int :=
  attempt.analyzer.snapshot.clock

end Attempt

theorem tick_eq_attempt (analyzer : Analyzer α) :
    analyzer.tick = (Attempt.mk (analyzer.update none) analyzer.building).tick :=
  process_eq_processWith _

namespace Attempt

def analysis? (attempt : Attempt α) : Option (Analysis α) :=
  match attempt.tick.outcome with
  | .ok (.ready analysis) => some analysis
  | _ => none

def findsGap (attempt : Attempt α) : Bool :=
  attempt.analyzer.snapshot.isReady &&
    match attempt.building attempt.analyzer.snapshot with
    | .error (.noSeed _) => true
    | _ => false

inductive Course (attempt : Attempt α) : Prop
  | ranked (ranking : Ranking α)
      (built : attempt.building attempt.analyzer.snapshot = .ok (.ready ranking))
      (noGap : attempt.findsGap = false)
      (told : attempt.tick.outcome = .ok (.ready ⟨attempt.clock, ranking, false⟩))
      (left : attempt.tick.analyzer = attempt.analyzer.remember ⟨attempt.clock, ranking, false⟩)
  | gap (found : SeedGap)
      (built : attempt.building attempt.analyzer.snapshot = .error (.noSeed found))
      (gap : attempt.findsGap = true)
      (told : attempt.tick.outcome = .ok (.notReady (.seed found)))
      (left : attempt.tick.analyzer = attempt.analyzer.markStale)
  | waits (cause : Shortage)
      (built : attempt.analyzer.snapshot.isReady = true →
        attempt.building attempt.analyzer.snapshot = .ok (.notReady cause))
      (noGap : attempt.findsGap = false)
      (told : attempt.tick.outcome = .ok (.notReady cause))
      (left : attempt.tick.analyzer = attempt.analyzer)
  | fails (fault : Fault α)
      (built : attempt.building attempt.analyzer.snapshot = .error fault)
      (noGap : attempt.findsGap = false)
      (told : attempt.tick.outcome = .error fault)
      (left : attempt.tick.analyzer = attempt.analyzer)

theorem course (attempt : Attempt α) : attempt.Course := by
  cases ready : attempt.analyzer.snapshot.isReady with
  | false =>
      have waits : attempt.tick =
          ⟨attempt.analyzer, .ok (.notReady (.window attempt.clock)), []⟩ := by
        simp [tick, processWith, ready, clock]
      apply Course.waits (.window attempt.clock)
      · intro full
        cases ready.symm.trans full
      · simp [findsGap, ready]
      · rw [waits]
      · rw [waits]
  | true =>
      cases built : attempt.building attempt.analyzer.snapshot with
      | ok outcome =>
          have noGap : attempt.findsGap = false := by simp [findsGap, built]
          cases outcome with
          | ready ranking =>
              apply Course.ranked ranking built noGap <;> simp [tick, processWith, ready, built, clock]
          | notReady cause =>
              apply Course.waits cause (fun _ => built) noGap <;>
                simp [tick, processWith, ready, built]
      | error fault =>
          cases fault with
          | noSeed found =>
              apply Course.gap found built <;> simp [findsGap, tick, processWith, ready, built]
          | _ => apply Course.fails _ built <;> simp [findsGap, tick, processWith, ready, built]

structure Sound (attempt : Attempt α) : Prop where
  ready : ∀ analysis, attempt.analysis? = some analysis → ∃ ranking,
    attempt.building attempt.analyzer.snapshot = .ok (.ready ranking) ∧
      analysis = ⟨attempt.clock, ranking, false⟩
  skipped : attempt.findsGap = true → ∃ cause, attempt.tick.outcome = .ok (.notReady cause)
  passes : ∀ fault, attempt.analyzer.snapshot.isReady = true →
    attempt.building attempt.analyzer.snapshot = .error fault → (∀ gap, fault ≠ .noSeed gap) →
      attempt.tick.outcome = .error fault
  failed : ∀ fault, attempt.tick.outcome = .error fault →
    attempt.tick.analyzer.latest = attempt.analyzer.latest
  onlyRead : attempt.tick.analyzer.snapshot = attempt.analyzer.snapshot

theorem analysis?_eq_some_iff (attempt : Attempt α) (analysis : Analysis α) :
    attempt.analysis? = some analysis ↔ attempt.tick.outcome = .ok (.ready analysis) := by
  unfold analysis?
  split
  · rename_i found told
    simp [told]
  · rename_i other
    simpa using other analysis

theorem sound (attempt : Attempt α) : attempt.Sound := by
  cases attempt.course with
  | ranked ranking built noGap told left =>
      constructor
      · intro analysis found
        rw [analysis?_eq_some_iff, told] at found
        cases found
        exact ⟨ranking, built, rfl⟩
      · intro gap
        cases noGap.symm.trans gap
      · intro fault _ other
        cases built.symm.trans other
      · intro fault failed
        cases told.symm.trans failed
      · rw [left]
        rfl
  | gap found built gap told left =>
      constructor
      · intro analysis found
        rw [analysis?_eq_some_iff, told] at found
        cases found
      · intro _
        exact ⟨_, told⟩
      · intro fault _ same other
        cases built.symm.trans same
        exact absurd rfl (other found)
      · intro fault failed
        cases told.symm.trans failed
      · rw [left]
        rfl
  | waits cause built noGap told left =>
      constructor
      · intro analysis found
        rw [analysis?_eq_some_iff, told] at found
        cases found
      · intro gap
        cases noGap.symm.trans gap
      · intro fault ready other
        cases (built ready).symm.trans other
      · intro fault failed
        cases told.symm.trans failed
      · rw [left]
  | fails fault built noGap told left =>
      constructor
      · intro analysis found
        rw [analysis?_eq_some_iff, told] at found
        cases found
      · intro gap
        cases noGap.symm.trans gap
      · intro other _ same _
        cases built.symm.trans same
        exact told
      · intro _ _
        rw [left]
      · rw [left]

end Attempt

/-- A call of an analyzer; where it ranks candidates, building may come to anything. -/
inductive Turn (α : Type) where
  | append (stream : Stream) (value : Payload α stream)
  | update (step : Option Int)
  | process (building : Building α)
  | tick (building : Building α)

def Turn.IsPaced : Turn α → Prop
  | .append _ _ | .tick _ => True
  | .update _ | .process _ => False

def attempt? (analyzer : Analyzer α) : Turn α → Option (Attempt α)
  | .append _ _ | .update _ => none
  | .process building => some ⟨analyzer, building⟩
  | .tick building => some ⟨analyzer.update none, building⟩

def turn (analyzer : Analyzer α) : Turn α → Analyzer α
  | .append stream value => analyzer.call (.append stream value)
  | .update step => analyzer.update step
  | .process building => (analyzer.processWith building).analyzer
  | .tick building => ((analyzer.update none).processWith building).analyzer

def turnAll (analyzer : Analyzer α) : List (Turn α) → Analyzer α
  | [] => analyzer
  | first :: rest => (analyzer.turn first).turnAll rest

def attempts (analyzer : Analyzer α) : List (Turn α) → List (Attempt α)
  | [] => []
  | first :: rest => (analyzer.attempt? first).toList ++ (analyzer.turn first).attempts rest

variable {analyzer : Analyzer α} {asked : Turn α}

theorem latest_call_append (analyzer : Analyzer α) (stream : Stream) (value : Payload α stream) :
    (analyzer.call (.append stream value)).latest = analyzer.latest := by
  simp only [call]
  split <;> rfl

theorem clock_call_append (analyzer : Analyzer α) (stream : Stream) (value : Payload α stream) :
    (analyzer.call (.append stream value)).snapshot.clock = analyzer.snapshot.clock := by
  simp only [call]
  split
  · rename_i snapshot record appended
    exact Snapshot.append_clock appended
  · rfl

theorem latest_turn_of_none (made : analyzer.attempt? asked = none) :
    (analyzer.turn asked).latest = analyzer.latest := by
  cases asked with
  | append stream value => exact latest_call_append ..
  | update step => rfl
  | process building => cases made
  | tick building => cases made

theorem turn_of_some {attempt : Attempt α} (made : analyzer.attempt? asked = some attempt) :
    analyzer.turn asked = attempt.tick.analyzer ∧ attempt.analyzer.latest = analyzer.latest := by
  cases asked with
  | append stream value => cases made
  | update step => cases made
  | process building =>
      cases made
      exact ⟨rfl, rfl⟩
  | tick building =>
      cases made
      exact ⟨rfl, rfl⟩

theorem Attempt.latest_of_unready {attempt : Attempt α} (unready : attempt.analysis? = none) :
    attempt.tick.analyzer.latest = attempt.analyzer.latest.map fun kept =>
      { kept with stale := kept.stale || attempt.findsGap } := by
  cases attempt.course with
  | ranked ranking built noGap told left =>
      rw [(attempt.analysis?_eq_some_iff _).mpr told] at unready
      cases unready
  | gap found built gap told left => simp [left, gap, markStale]
  | waits cause built noGap told left => simp [left, noGap]
  | fails fault built noGap told left => simp [left, noGap]

theorem Attempt.latest_of_ready {attempt : Attempt α} {analysis : Analysis α}
    (ready : attempt.analysis? = some analysis) : attempt.tick.analyzer.latest = some analysis := by
  rw [analysis?_eq_some_iff] at ready
  cases attempt.course with
  | ranked ranking built noGap told left =>
      cases told.symm.trans ready
      rw [left]
      rfl
  | gap found built gap told left => cases told.symm.trans ready
  | waits cause built noGap told left => cases told.symm.trans ready
  | fails fault built noGap told left => cases told.symm.trans ready

/-- As long as no attempt is ready, only gaps in the seed touch the latest result. -/
theorem latest_turnAll {turns : List (Turn α)}
    (unready : ∀ attempt ∈ analyzer.attempts turns, attempt.analysis? = none) :
    (analyzer.turnAll turns).latest = analyzer.latest.map fun kept =>
      { kept with stale := kept.stale || (analyzer.attempts turns).any Attempt.findsGap } := by
  induction turns generalizing analyzer with
  | nil => simp [turnAll, attempts]
  | cons first rest ih =>
      have later := ih fun attempt member => unready attempt (List.mem_append_right _ member)
      rw [turnAll, later]
      cases made : analyzer.attempt? first with
      | none => simp [attempts, made, latest_turn_of_none made]
      | some attempt =>
          obtain ⟨left, same⟩ := turn_of_some made
          have here := unready attempt (by simp [attempts, made])
          simp [attempts, made, left, Attempt.latest_of_unready here, same, Option.map_map,
            Function.comp_def, Bool.or_assoc]

theorem turnAll_append (analyzer : Analyzer α) (before later : List (Turn α)) :
    analyzer.turnAll (before ++ later) = (analyzer.turnAll before).turnAll later := by
  induction before generalizing analyzer with
  | nil => rfl
  | cons first rest ih => exact ih _

theorem attempts_pairwise {turns : List (Turn α)} (paced : ∀ asked ∈ turns, asked.IsPaced) :
    (∀ attempt ∈ analyzer.attempts turns, analyzer.snapshot.clock < attempt.clock) ∧
      (analyzer.attempts turns).Pairwise fun earlier later => earlier.clock < later.clock := by
  -- On the turns, for any analyzer: what the clock is before them bounds the attempts below.
  induction turns generalizing analyzer with
  | nil => simp [attempts]
  | cons first rest ih =>
      obtain ⟨ahead, ordered⟩ := @ih (analyzer.turn first) fun asked member =>
        paced asked (List.mem_cons_of_mem _ member)
      cases first with
      | append stream value =>
          simp only [turn, clock_call_append] at ahead
          exact ⟨ahead, ordered⟩
      | update step => exact (paced _ List.mem_cons_self).elim
      | process building => exact (paced _ List.mem_cons_self).elim
      | tick building =>
          let attempt : Attempt α := ⟨analyzer.update none, building⟩
          have clock : attempt.clock = analyzer.snapshot.clock + analyzer.step := rfl
          have here : (analyzer.turn (.tick building)).snapshot.clock = attempt.clock :=
            congrArg Snapshot.clock attempt.sound.onlyRead
          have positive := analyzer.step_pos
          have listed : analyzer.attempts (.tick building :: rest) =
              attempt :: (analyzer.turn (.tick building)).attempts rest := rfl
          rw [here] at ahead
          rw [listed]
          constructor
          · intro other member
            rcases List.mem_cons.mp member with rfl | later
            · omega
            · have after := ahead other later
              omega
          · exact List.pairwise_cons.mpr ⟨ahead, ordered⟩

/-- What an analyzer remembers behind a list of turns. -/
structure Remembers (analyzer : Analyzer α) (turns : List (Turn α)) : Prop where
  nothing : (∀ attempt ∈ analyzer.attempts turns, attempt.analysis? = none) →
    (analyzer.turnAll turns).latest = none
  recent : ∀ before asked later, turns = before ++ asked :: later → ∀ attempt analysis,
    (analyzer.turnAll before).attempt? asked = some attempt → attempt.analysis? = some analysis →
    (∀ next ∈ attempt.tick.analyzer.attempts later, next.analysis? = none) →
    (analyzer.turnAll turns).latest = some { analysis with
      stale := (attempt.tick.analyzer.attempts later).any Attempt.findsGap }
  cleared : ∀ before asked later, turns = before ++ asked :: later → ∀ kept after,
    (analyzer.turnAll before).latest = some kept → kept.stale = true →
    ((analyzer.turnAll before).turn asked).latest = some after → after.stale = false →
    ∃ attempt, (analyzer.turnAll before).attempt? asked = some attempt ∧
      attempt.analysis? = some after
  forward : (∀ asked ∈ turns, asked.IsPaced) →
    ((analyzer.attempts turns).filterMap Attempt.analysis?).Pairwise fun earlier later =>
      earlier.clock < later.clock

/-- An analyzer remembers the result of its last attempt that was ready, whatever it is called with
and whatever building comes to. -/
theorem remembers_of_create {snapshot : Snapshot α} {builder : Builder α} {step : Int}
    (started : Analyzer.create snapshot builder step = .ok analyzer) :
    (∀ analyzer : Analyzer α, analyzer.process = analyzer.processWith analyzer.building ∧
      analyzer.tick = (analyzer.update none).processWith analyzer.building) ∧
    (∀ attempt : Attempt α, attempt.Sound) ∧
    ∀ turns : List (Turn α), analyzer.Remembers turns := by
  have empty : analyzer.latest = none := by
    unfold Analyzer.create at started
    split at started <;> cases started
    rfl
  refine ⟨fun _ => ⟨process_eq_processWith _, tick_eq_attempt _⟩, Attempt.sound,
    fun turns => ⟨?_, ?_, ?_, ?_⟩⟩
  · intro unready
    rw [latest_turnAll unready, empty]
    rfl
  · rintro before asked later rfl attempt analysis made ready unready
    rw [turnAll_append, turnAll, (turn_of_some made).1, latest_turnAll unready,
      Attempt.latest_of_ready ready]
    obtain ⟨ranking, -, rfl⟩ := attempt.sound.ready analysis ready
    simp
  · rintro before asked later rfl kept after held stale left fresh
    -- A stale result becomes fresh only by an attempt that is ready.
    cases made : (analyzer.turnAll before).attempt? asked with
    | none =>
        rw [latest_turn_of_none made, held] at left
        cases left
        cases stale.symm.trans fresh
    | some attempt =>
        obtain ⟨same, before⟩ := turn_of_some made
        refine ⟨attempt, rfl, ?_⟩
        cases told : attempt.analysis? with
        | some analysis =>
            rw [same, Attempt.latest_of_ready told] at left
            exact left
        | none =>
            rw [same, Attempt.latest_of_unready told, before, held] at left
            cases left
            simp [stale] at fresh
  · intro paced
    rw [List.pairwise_filterMap]
    apply (attempts_pairwise paced).2.imp
    intro earlier later ahead first told second told'
    obtain ⟨_, -, rfl⟩ := earlier.sound.ready first told
    obtain ⟨_, -, rfl⟩ := later.sound.ready second told'
    exact ahead

def ofLoaded : Except (Fault Float) (Analyzer Float) := do
  let (builder, _) ← Run.restSettings.builder
  let snapshot ← Snapshot.load recordStamp 0 0 (Run.restDrive 500000000).entries
  Analyzer.create snapshot builder 250000000

def readyTurn : Turn Float :=
  .tick fun _ => .ok (.ready ⟨0, []⟩)

def faultyTurns : List (Turn Float) :=
  [.process fun _ => .error (.noSeed (.emptyPlan 0)), .process fun _ => .error .emptyRanking]

theorem restDrive_remembers : ∃ analyzer, ofLoaded = .ok analyzer ∧
    (analyzer.turnAll (readyTurn :: faultyTurns)).latest = some ⟨250000000, ⟨0, []⟩, true⟩ := by
  have evaluated : ofLoaded.toOption.map (fun analyzer =>
      let arrived := analyzer.update none
      (arrived.snapshot.clock, arrived.snapshot.isReady)) = some (250000000, true) := by
    decide +kernel
  obtain ⟨analyzer, made, told⟩ := exists_ok_of_map evaluated
  simp only [Prod.mk.injEq] at told
  obtain ⟨clock, ready⟩ := told
  have started := made
  simp only [ofLoaded, bind_eq_ok_iff] at started
  obtain ⟨_, -, snapshot, -, started⟩ := started
  obtain ⟨-, -, remembers⟩ := remembers_of_create started
  let attempt : Attempt Float := ⟨analyzer.update none, fun _ => .ok (.ready ⟨0, []⟩)⟩
  have ranked : attempt.analysis? = some ⟨250000000, ⟨0, []⟩, false⟩ := by
    simp [attempt, Attempt.analysis?, Attempt.tick, processWith, ready, clock]
  have full : attempt.tick.analyzer.snapshot.isReady = true := by
    rw [attempt.sound.onlyRead]
    exact ready
  refine ⟨analyzer, made, ?_⟩
  rw [(remembers (readyTurn :: faultyTurns)).recent [] readyTurn faultyTurns rfl attempt _ rfl ranked]
  · simp [faultyTurns, attempts, attempt?, turn, processWith, Attempt.findsGap, full]
  · intro next member
    -- Where building fails, nothing is ready.
    have failing : ∃ fault, next.building next.analyzer.snapshot = .error fault := by
      rcases List.mem_cons.mp member with rfl | later
      · exact ⟨_, rfl⟩
      · rw [List.mem_singleton.mp later]
        exact ⟨_, rfl⟩
    obtain ⟨fault, built⟩ := failing
    apply Option.eq_none_iff_forall_ne_some.mpr
    intro analysis told
    obtain ⟨ranking, other, -⟩ := next.sound.ready analysis told
    cases built.symm.trans other

/-- A skipped attempt leaves a result that looks fresh exactly if it found one and no gap. -/
theorem Attempt.fresh_of_skipped_iff {attempt : Attempt α} {cause : Shortage}
    (skipped : attempt.tick.outcome = .ok (.notReady cause)) :
    (∃ kept, attempt.tick.analyzer.latest = some kept ∧ kept.stale = false) ↔
      attempt.findsGap = false ∧ ∃ kept, attempt.analyzer.latest = some kept ∧ kept.stale = false := by
  have unready : attempt.analysis? = none := by
    rw [analysis?, skipped]
  rw [latest_of_unready unready]
  cases attempt.analyzer.latest with
  | none => simp
  | some kept => simp [and_comm]

theorem second_tick_ofLoaded : ∃ analyzer, ofLoaded = .ok analyzer ∧
    (∃ cause, analyzer.tick.analyzer.tick.outcome = .ok (.notReady cause)) ∧
    (analyzer.tick.analyzer.update none).snapshot.isReady = false ∧
    ∃ kept, analyzer.tick.analyzer.latest = some kept ∧ kept.stale = false := by
  have evaluated : ofLoaded.toOption.map (fun analyzer =>
      let first := analyzer.tick.analyzer
      (first.tick.outcome.toOption.map Outcome.isReady, (first.update none).snapshot.isReady,
        first.latest.map Analysis.stale)) = some (some false, false, some false) := by
    decide +kernel
  obtain ⟨analyzer, made, told⟩ := exists_ok_of_map evaluated
  simp only [Prod.mk.injEq, Option.map_eq_some_iff, toOption_eq_some_iff] at told
  obtain ⟨⟨outcome, answered, waits⟩, short, fresh⟩ := told
  refine ⟨analyzer, made, ?_, short, fresh⟩
  cases outcome with
  | ready analysis => cases waits
  | notReady cause => exact ⟨cause, answered⟩

theorem restDrive_skipped_fresh : ∃ analyzer, ofLoaded = .ok analyzer ∧
    (∃ cause, analyzer.tick.analyzer.tick.outcome = .ok (.notReady cause)) ∧
    ∃ kept, analyzer.tick.analyzer.tick.analyzer.latest = some kept ∧ kept.stale = false := by
  obtain ⟨analyzer, made, ⟨cause, skipped⟩, short, kept, held, fresh⟩ := second_tick_ofLoaded
  refine ⟨analyzer, made, ⟨cause, skipped⟩, kept, ?_, fresh⟩
  rw [tick, process, short]
  exact held

theorem restDrive_fresh_of_skipped : ∃ attempt : Attempt Float,
    (∃ cause, attempt.tick.outcome = .ok (.notReady cause)) ∧ attempt.findsGap = false ∧
    ∃ kept, attempt.tick.analyzer.latest = some kept ∧ kept.stale = false := by
  obtain ⟨analyzer, -, ⟨cause, skipped⟩, short, fresh⟩ := second_tick_ofLoaded
  have noGap (building : Building Float) :
      (Attempt.mk (analyzer.tick.analyzer.update none) building).findsGap = false := by
    rw [Attempt.findsGap, short]
    rfl
  rw [tick_eq_attempt] at skipped
  exact ⟨_, ⟨cause, skipped⟩, noGap _,
    (Attempt.fresh_of_skipped_iff skipped).mpr ⟨noGap _, fresh⟩⟩

end Analyzer

end ManeuverRanking
