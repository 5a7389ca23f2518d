import ManeuverRanking.DriveLog
import ManeuverRanking.Horizon
import ManeuverRanking.Outcome
import ManeuverRanking.Window

/-!
Windows over all streams under one clock. Advancing the clock evicts every window at the new time,
and samples are taken at times relative to the clock.
-/

namespace ManeuverRanking

structure Snapshot (α : Type) where
  clock : Int
  windows : PerStream fun stream => Window α (Payload α stream)

@[reducible] def StampKeys (α : Type) : Type :=
  (stream : Stream) → Payload α stream → Except (Fault α) Int

namespace Snapshot

variable {α : Type}

def defaultSpan : Int := 20 * nanosecondsPerSecond

def create (keys : StampKeys α) (clock span : Int) : Except (Fault α) (Snapshot α) :=
  if span < 0 then .error .windowSpan
  else .ok ⟨clock, .ofFn fun stream => Window.empty (keys stream) span.toNat⟩

def window (snapshot : Snapshot α) (stream : Stream) : Window α (Payload α stream) :=
  snapshot.windows.get stream

def append (snapshot : Snapshot α) (stream : Stream) (value : Payload α stream) :
    Except (Fault α) (Snapshot α × Stamped (Payload α stream)) := do
  let (window, record) ← (snapshot.window stream).append value
  return ({ snapshot with windows := snapshot.windows.set stream window }, record)

theorem append_clock {snapshot result : Snapshot α} {stream : Stream} {value : Payload α stream}
    {record : Stamped (Payload α stream)}
    (appended : snapshot.append stream value = .ok (result, record)) :
    result.clock = snapshot.clock := by
  cases window : (snapshot.window stream).append value with
  | error fault => simp [append, window, bind, Except.bind] at appended
  | ok pair =>
      simp only [append, window, bind, Except.bind, pure, Except.pure, Except.ok.injEq,
        Prod.mk.injEq] at appended
      rw [← appended.1]

def evict (snapshot : Snapshot α) : Snapshot α :=
  { snapshot with
    windows := snapshot.windows.map fun _ window => (window.evict snapshot.clock).1 }

def advance (snapshot : Snapshot α) (step : Int) : Snapshot α :=
  evict { snapshot with clock := snapshot.clock + step }

@[simp] theorem advance_clock (snapshot : Snapshot α) (step : Int) :
    (snapshot.advance step).clock = snapshot.clock + step :=
  rfl

def isReady (snapshot : Snapshot α) : Bool :=
  Stream.all.all fun stream => (snapshot.window stream).isReady

def sizes (snapshot : Snapshot α) : List Nat :=
  snapshot.windows.toList fun _ window => window.size

def current (snapshot : Snapshot α) (stream : Stream) : Option (Stamped (Payload α stream)) :=
  (snapshot.window stream).queryAfter snapshot.clock

variable [Scalar α]

/-- The first record after a step of a horizon that starts at the clock. Only the step at the clock
itself needs no horizon. -/
def query (snapshot : Snapshot α) (stream : Stream) (step : Int) (horizon : Option (Horizon α)) :
    Except (Fault α) (Option (Stamped (Payload α stream))) :=
  if step = 0 then .ok (snapshot.current stream)
  else
    match horizon with
    | none => .error .horizonMissing
    | some horizon => do
        let offset ← horizon.stepOffset step
        return (snapshot.window stream).queryAfter (snapshot.clock + offset)

def collectFrom (snapshot : Snapshot α) (stream : Stream) (horizon : Horizon α) (step : Nat) :
    Nat → Except (Fault α) (Outcome Shortage (List (Payload α stream)))
  | 0 => .ok (.ready [])
  | remaining + 1 => do
      match ← snapshot.query stream step (some horizon) with
      | none => return .notReady (.ranOut stream step horizon.steps snapshot.clock)
      | some record =>
          let later ← collectFrom snapshot stream horizon (step + 1) remaining
          return later.map (record.value :: ·)

def collect (snapshot : Snapshot α) (stream : Stream) (horizon : Horizon α) :
    Except (Fault α) (Outcome Shortage (List (Payload α stream))) :=
  snapshot.collectFrom stream horizon 0 horizon.steps

end Snapshot

end ManeuverRanking
