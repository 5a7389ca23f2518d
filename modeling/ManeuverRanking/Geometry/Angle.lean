import ManeuverRanking.Scalar.Rounding
import ManeuverRanking.Scalar.Series

/-!
Angles up to full turns: reduction to one turn, and unwrapping of a list so that no step exceeds
half a turn.
-/

namespace ManeuverRanking

variable {α : Type} [Scalar α]

def normalizeAngle (angle : α) : α :=
  Scalar.atan2 (Scalar.sin angle) (Scalar.cos angle)

/-- The change of angle nearest to zero among those that differ from the given one by full turns.
Exactly half a turn keeps the direction it was taken in. -/
def shortestTurn (change : α) : α :=
  let wrapped := remainder (change + Scalar.pi) (2.0 * Scalar.pi) - Scalar.pi
  if sameAs wrapped (-Scalar.pi) ∧ 0 < change then Scalar.pi else wrapped

def turnCorrection (change : α) : α :=
  if abs change < Scalar.pi then 0 else shortestTurn change - change

def unwrapAngles : List α → List α
  | [] => []
  | first :: rest =>
      let corrections := (differences (first :: rest)).map turnCorrection
      first :: List.zipWith (· + ·) rest (runningTotals 0 corrections)

end ManeuverRanking
