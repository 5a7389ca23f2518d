import ManeuverRanking.Shortage

/-!
What a run has to tell besides its results, as data.
-/

namespace ManeuverRanking

inductive Notice (α : Type) where
  | resolutionReplaced (configured used : α)
  | tickSkipped (clock : Int) (gap : SeedGap)
  | ticksProcessed (ticks : Nat) (logName : String) (skipped : Nat)
  | noLogs

namespace Notice

inductive Level where
  | info
  | warning
  deriving DecidableEq, Repr

def level {α : Type} : Notice α → Level
  | ticksProcessed .. => .info
  | _ => .warning

def message {α : Type} (wording : Wording α) : Notice α → String
  | resolutionReplaced configured used =>
      "Sampling resolution " ++ wording.number configured ++ "s differs from interval length "
        ++ wording.number used ++ "s, sampling at the interval length"
  | tickSkipped clock gap =>
      "Skipping evaluation at " ++ wording.clock clock ++ ": " ++ gap.message wording.clock
  | ticksProcessed ticks logName skipped =>
      s!"Processed {ticks} ticks of log {logName}, {skipped} skipped"
  | noLogs => "No stream logs found, nothing to write."

end Notice

end ManeuverRanking
