import ManeuverRanking.Analysis.Run
import ManeuverRanking.LogArchive

/-!
The analysis of an archive of drives: one table over all of them, and a summary that counts the
distinct times of ticks.
-/

namespace ManeuverRanking

structure Summary where
  evaluated : Nat
  successful : Nat
  skipped : Int
  deriving DecidableEq, Repr

structure Batch (α : Type) where
  loaded : Nat
  runs : List (Run α)
  notices : List (Notice α)

namespace Batch

variable {α : Type} [Scalar α]

def timeKind (batch : Batch α) : TimeKind :=
  .joinAll (batch.runs.map Run.timeKind)

def table (batch : Batch α) : Table α :=
  .ofRows ((batch.runs.flatMap Run.rows).map (Row.holdTime batch.timeKind))

def times (batch : Batch α) (counted : RunTick α → Bool) : List Int :=
  let kind := batch.timeKind
  let held := batch.runs.flatMap fun run =>
    let runKind := run.timeKind
    (run.ticks.filter counted).map fun tick => kind.hold α (runKind.hold α tick.clock)
  held.eraseDups

/-- Drives that share a time share its count. There must be a tick to count. -/
def summary (batch : Batch α) : Except (Fault α) Summary :=
  let evaluated := (batch.times fun _ => true).length
  let successful := (batch.times RunTick.isValid).length
  if evaluated = 0 then .error .noTicks
  else .ok ⟨evaluated, successful, evaluated - successful⟩

def ofArchive (settings : RunSettings α) (archive : LogArchive α) :
    Except (Fault α) (Batch α) := do
  let runs ← archive.entries.mapM fun entry => do
    Run.ofLog settings (← LogArchive.read entry)
  let notices := if runs.isEmpty then [.noLogs] else runs.flatMap Run.notices
  return ⟨archive.size, runs, notices⟩

end Batch

end ManeuverRanking
