import ManeuverRanking.Path.FrenetState

/-!
The lattice of target states that sampled trajectories head for: all combinations of the values on
five grids, at one common arc length.
-/

namespace ManeuverRanking

variable {α : Type} [Scalar α]

structure LatticeSettings (α : Type) where
  offsets : List α
  speeds : List α
  accelerations : List α
  lateralRates : List α
  lateralBends : List α
  duration : α
  resolution : α
  /-- Meters at the end of the plan that are not aimed for. -/
  reserve : α

def LatticeSettings.standard : LatticeSettings α where
  offsets := [-4.5, -2.5, 0.0, 2.5, 4.5]
  speeds := [5.56, 11.1]
  accelerations := [0.0]
  lateralRates := [0.0]
  lateralBends := [-0.2, -0.1, 0.0, 0.1, 0.2]
  duration := 10.0
  resolution := 0.5
  reserve := 0.0

structure LatticeTarget (α : Type) where
  state : FrenetState α
  duration : α

structure Lattice (α : Type) where
  targets : List (LatticeTarget α)
  resolution : α

namespace Lattice

/-- The common arc length of the targets: the rest of the plan ahead, but never past the path. -/
def targetPlace (settings : LatticeSettings α) (path : ReferencePath α) (along planLength : α) :
    α :=
  firstOrSmaller path.lastPlace (along + firstOrLarger 0 (planLength - settings.reserve))

def build (settings : LatticeSettings α) (path : ReferencePath α) (along planLength : α) :
    Lattice α :=
  let place := targetPlace settings path along planLength
  { resolution := settings.resolution
    targets :=
      settings.speeds.flatMap fun speed =>
      settings.accelerations.flatMap fun acceleration =>
      settings.offsets.flatMap fun offset =>
      settings.lateralRates.flatMap fun lateralRate =>
      settings.lateralBends.map fun lateralBend =>
        ⟨⟨⟨place, offset⟩, speed, acceleration, lateralRate, lateralBend⟩, settings.duration⟩ }

end Lattice

end ManeuverRanking
