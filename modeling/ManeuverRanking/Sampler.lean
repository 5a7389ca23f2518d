import ManeuverRanking.Path.Lattice

/-!
Samplers of alternative trajectories, as functions of the reference path, the ego state and the
lattice of targets. Three simple ones are given: constant speeds, straight ways to the targets, and
a fixed script.
-/

namespace ManeuverRanking

structure SamplerRequest (α : Type) where
  path : ReferencePath α
  state : FrenetState α
  lattice : Lattice α

@[reducible] def Sampler (α : Type) : Type :=
  SamplerRequest α → Except (Fault α) (List (List (PlanPoint α)))

namespace Sampler

variable {α : Type} [Scalar α]

def pointAt (path : ReferencePath α) (place offset speed acceleration wheelAngle time : α) :
    Except (Fault α) (PlanPoint α) := do
  let position := path.cartesian place offset
  let pose ← Pose.planar ⟨position.x, position.y, 0⟩ (path.yaw place)
  return ⟨pose, speed, acceleration, wheelAngle, time⟩

def constantSpeeds (speeds : List α) (count : Nat) (offset : α) : Sampler α := fun request =>
  speeds.mapM fun speed =>
    (List.range count).mapM fun index : Nat => do
      let place := request.state.position.along + speed * request.lattice.resolution * ofInt index
      pointAt request.path place offset speed 0 0 (request.lattice.resolution * ofInt index)

def straightToTargets (count : Nat) : Sampler α := fun request =>
  request.lattice.targets.mapM fun target =>
    (List.range count).mapM fun index : Nat => do
      let share : α := if count = 1 then 0 else ofInt index / ofInt (count - 1 : Nat)
      let start := request.state.position
      let stop := target.state.position
      let place := start.along + (stop.along - start.along) * share
      let offset := start.offset + (stop.offset - start.offset) * share
      pointAt request.path place offset target.state.speed (target.state.acceleration * share)
        target.state.lateralBend (request.lattice.resolution * ofInt index)

def scripted (trajectories : List (List (PlanPoint α))) : Sampler α := fun _ =>
  .ok trajectories

end Sampler

end ManeuverRanking
