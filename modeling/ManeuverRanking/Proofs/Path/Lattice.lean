import Mathlib.Analysis.SpecialFunctions.Complex.Arg
import ManeuverRanking.Path.Lattice
import ManeuverRanking.Proofs.Path.Frame
import ManeuverRanking.Proofs.Path.Straight

/-!
The lattice of target states. Where it stands is a matter of order on the path: the foot of the ego
vehicle lies on it, and the targets lie between the foot and its end. What it holds is a matter of
counting: each grid put in front of the others repeats them once for each of its entries, so a
combination is found by its indices and found once.
-/

namespace ManeuverRanking

section Enumeration

variable {ι β γ : Type}

structure Enumerates (entries : List β) (count : Nat) (rank : ι → Nat) (value : ι → β) : Prop where
  length : entries.length = count
  found : ∀ index, entries[rank index]? = some (value index)
  covered : ∀ position < count, ∃! index, rank index = position

namespace Enumerates

variable {entries : List β} {count : Nat} {rank : ι → Nat} {value : ι → β}

theorem rank_lt (enumerates : Enumerates entries count rank value) (index : ι) :
    rank index < count := by
  rw [← enumerates.length]
  exact (List.getElem?_eq_some_iff.mp (enumerates.found index)).1

theorem exists_of_mem (enumerates : Enumerates entries count rank value) {entry : β}
    (member : entry ∈ entries) : ∃ index, entry = value index := by
  obtain ⟨position, inside, rfl⟩ := List.mem_iff_getElem.mp member
  obtain ⟨index, rfl, -⟩ := enumerates.covered position (enumerates.length ▸ inside)
  exact ⟨index, (List.getElem?_eq_some_iff.mp (enumerates.found index)).2⟩

theorem congr {count' : Nat} {rank' : ι → Nat} (enumerates : Enumerates entries count rank value)
    (equal : count' = count) (same : ∀ index, rank' index = rank index) :
    Enumerates entries count' rank' value := by
  obtain rfl : rank' = rank := funext same
  rwa [equal]

theorem map (grid : List γ) (value : γ → β) :
    Enumerates (grid.map value) grid.length (fun index : Fin grid.length => (index : Nat))
      (fun index => value grid[index]) where
  length := List.length_map _
  found index := by simp
  covered position inside := ⟨⟨position, inside⟩, rfl, fun _ same => Fin.ext same⟩

section Blocks

variable {block : γ → List β}

theorem length_flatMap (grid : List γ) (full : ∀ entry, (block entry).length = count) :
    (grid.flatMap block).length = grid.length * count := by
  simp [List.length_flatMap, full]

theorem getElem?_flatMap (grid : List γ) (full : ∀ entry, (block entry).length = count)
    {offset : Nat} (inside : offset < count) (index : Nat) :
    (grid.flatMap block)[index * count + offset]? =
      grid[index]?.bind fun entry => (block entry)[offset]? := by
  induction grid generalizing index with
  | nil => simp
  | cons entry rest ih =>
      rw [List.flatMap_cons]
      cases index with
      | zero =>
          rw [Nat.zero_mul, Nat.zero_add, List.getElem?_append_left (by rwa [full])]
          rfl
      | succ index =>
          have behind : (index + 1) * count + offset =
              (block entry).length + (index * count + offset) := by
            rw [full]
            ring
          rw [behind, List.getElem?_append_right (Nat.le_add_right _ _), Nat.add_sub_cancel_left, ih]
          rfl

theorem flatMap (grid : List γ) {value : γ → ι → β}
    (each : ∀ entry, Enumerates (block entry) count rank (value entry)) :
    Enumerates (grid.flatMap block) (grid.length * count)
      (fun index : Fin grid.length × ι => index.1 * count + rank index.2)
      (fun index => value grid[index.1] index.2) where
  length := length_flatMap grid fun entry => (each entry).length
  -- Rank and block are remainder and quotient by the size of a block.
  found := by
    rintro ⟨first, later⟩
    have short := (each grid[first]).rank_lt later
    have entry : grid[(first : Nat)]? = some grid[first] := List.getElem?_eq_getElem first.isLt
    rw [getElem?_flatMap grid (fun entry => (each entry).length) short, entry]
    exact (each grid[first]).found later
  covered := by
    intro position inside
    have some : 0 < count := Nat.pos_of_mul_pos_left (Nat.zero_lt_of_lt inside)
    have first : position / count < grid.length := (Nat.div_lt_iff_lt_mul some).mpr inside
    obtain ⟨later, told, unique⟩ :=
      (each grid[position / count]).covered _ (Nat.mod_lt position some)
    refine ⟨⟨⟨_, first⟩, later⟩, ?_, ?_⟩
    · dsimp only
      rw [told]
      exact Nat.div_add_mod' position count
    · rintro ⟨first', later'⟩ same
      have short := (each grid[first']).rank_lt later'
      have split : rank later' + count * first' = position := by
        rw [← same]
        ring
      obtain ⟨quotient, rest⟩ := (Nat.div_mod_unique some).mpr ⟨split, short⟩
      exact Prod.ext (Fin.ext quotient.symm) (unique later' rest.symm)

end Blocks

end Enumerates

end Enumeration

namespace LatticeSettings

variable {α : Type}

abbrev Combination (settings : LatticeSettings α) : Type :=
  Fin settings.speeds.length × Fin settings.accelerations.length × Fin settings.offsets.length ×
    Fin settings.lateralRates.length × Fin settings.lateralBends.length

variable {settings : LatticeSettings α}

/-- Where a combination stands in the lattice: the later a grid, the faster its index runs. -/
def Combination.rank : settings.Combination → Nat
  | (speed, acceleration, offset, rate, bend) =>
      (((speed * settings.accelerations.length + acceleration) * settings.offsets.length + offset)
        * settings.lateralRates.length + rate) * settings.lateralBends.length + bend

def Combination.target (place : α) : settings.Combination → LatticeTarget α
  | (speed, acceleration, offset, rate, bend) =>
      ⟨⟨⟨place, settings.offsets[offset]⟩, settings.speeds[speed],
        settings.accelerations[acceleration], settings.lateralRates[rate],
        settings.lateralBends[bend]⟩, settings.duration⟩

end LatticeSettings

namespace Lattice

section Targets

variable {α : Type} [Scalar α] (settings : LatticeSettings α) (path : ReferencePath α)
  (along planLength : α)

theorem enumerates_targets : Enumerates (build settings path along planLength).targets
    (settings.speeds.length * settings.accelerations.length * settings.offsets.length *
      settings.lateralRates.length * settings.lateralBends.length)
    (fun combination : settings.Combination => combination.rank)
    (fun combination => combination.target (targetPlace settings path along planLength)) := by
  have nested := Enumerates.flatMap settings.speeds fun speed =>
    Enumerates.flatMap settings.accelerations fun acceleration =>
    Enumerates.flatMap settings.offsets fun offset =>
    Enumerates.flatMap settings.lateralRates fun rate =>
    Enumerates.map settings.lateralBends fun bend => LatticeTarget.mk
      ⟨⟨targetPlace settings path along planLength, offset⟩, speed, acceleration, rate, bend⟩
      settings.duration
  refine nested.congr (by ring) ?_
  rintro ⟨speed, acceleration, offset, rate, bend⟩
  simp only [LatticeSettings.Combination.rank]
  ring

end Targets

section Order

variable (settings : LatticeSettings ℝ) {path : ReferencePath ℝ} {along : ℝ} (planLength : ℝ)

theorem targetPlace_eq (path : ReferencePath ℝ) (along : ℝ) :
    targetPlace settings path along planLength =
      min path.lastPlace (along + max 0 (planLength - settings.reserve)) := by
  rw [targetPlace, Exact.firstOrSmaller_eq, Exact.firstOrLarger_eq]

theorem le_targetPlace (before : along ≤ path.lastPlace) :
    along ≤ targetPlace settings path along planLength := by
  rw [targetPlace_eq]
  exact le_min before (le_add_of_nonneg_right (le_max_left _ _))

theorem targetPlace_le : targetPlace settings path along planLength ≤ path.lastPlace := by
  rw [targetPlace_eq]
  exact min_le_left _ _

end Order

end Lattice

theorem FrenetState.exists_ofEgo_eq {path : ReferencePath ℝ} {foot : FrenetPoint ℝ}
    {odometry : Odometry ℝ} (found : path.frenet odometry.pose.planarPosition = .ok foot)
    (acceleration : AccelerationReport ℝ) :
    ∃ rate bend, ofEgo path odometry acceleration = odometry.speed.map fun speed =>
      ⟨foot, speed, acceleration.longitudinal, rate, bend⟩ := by
  unfold ofEgo
  rw [found]
  cases odometry.speed with
  | error fault => exact ⟨0, 0, rfl⟩
  | ok speed => exact ⟨_, _, rfl⟩

namespace ReferencePath

/-- The initial state stands at the foot of the ego vehicle, which lies on the path, and the targets
stand at one place between the foot and the end of the path, whatever the plan and the reserve. There
are as many as the product of the grid sizes; the one at the rank of a combination has its values,
and each position is the rank of exactly one combination. -/
theorem lattice_ahead {abscissas ordinates : List ℝ} {spacing : ℝ} {path : ReferencePath ℝ}
    (built : through abscissas ordinates spacing = .ok path) (odometry : Odometry ℝ)
    (acceleration : AccelerationReport ℝ) (settings : LatticeSettings ℝ) (planLength : ℝ) :
    Yields (path.frenet odometry.pose.planarPosition) fun foot =>
      let place := Lattice.targetPlace settings path foot.along planLength
      let targets := (Lattice.build settings path foot.along planLength).targets
      (∃ rate bend, FrenetState.ofEgo path odometry acceleration = odometry.speed.map fun speed =>
        ⟨foot, speed, acceleration.longitudinal, rate, bend⟩) ∧
      (0 ≤ foot.along ∧ foot.along ≤ place ∧ place ≤ path.lastPlace) ∧
      (∀ target ∈ targets, foot.along ≤ target.state.position.along ∧
        target.state.position.along ≤ path.lastPlace) ∧
      targets.length = settings.speeds.length * settings.accelerations.length *
        settings.offsets.length * settings.lateralRates.length * settings.lateralBends.length ∧
      (∀ combination : settings.Combination,
        targets[combination.rank]? = some (combination.target place)) ∧
      ∀ position < targets.length, ∃! combination : settings.Combination,
        combination.rank = position := by
  obtain ⟨dense, sampled⟩ := exists_sampledAt (through_eq_ok_iff.mp built).2
  obtain ⟨foot, found, low, high⟩ := sampled.yields_frenet odometry.pose.planarPosition
  -- The foot is on the path, so targets that are clipped to the path still lie ahead of it.
  have ahead := Lattice.le_targetPlace settings planLength high
  have before : Lattice.targetPlace settings path foot.along planLength ≤ path.lastPlace :=
    Lattice.targetPlace_le settings planLength
  have lists := Lattice.enumerates_targets settings path foot.along planLength
  refine ⟨foot, found, FrenetState.exists_ofEgo_eq found acceleration, ⟨low, ahead, before⟩, ?_,
    lists.length, lists.found, ?_⟩
  · intro target member
    obtain ⟨combination, rfl⟩ := lists.exists_of_mem member
    exact ⟨ahead, before⟩
  · rw [lists.length]
    exact lists.covered

theorem straight_unitPath : unitPath.Straight ⟨0, 0⟩ ⟨1, 0⟩ where
  unit := by simp [Vec2.dot]
  point place := by
    simp [point, unitPath, sampled, Spline.value, Spline.pieceAt, Spline.pieceFrom, Cubic.value,
      Vec2.ahead]
  tangent place := by
    simp [tangent, unitPath, sampled, Spline.derivative, Spline.pieceAt, Spline.pieceFrom,
      Cubic.derivative]
  bend place := by
    simp [bend, unitPath, sampled, Spline.secondDerivative, Spline.pieceAt, Spline.pieceFrom,
      Cubic.secondDerivative]

noncomputable def besides : LatticeSettings ℝ where
  offsets := [-1, 1]
  speeds := [0, 1]
  accelerations := [0]
  lateralRates := [0]
  lateralBends := [-1, 0, 1]
  duration := 1
  resolution := 1
  reserve := 1

theorem unitPath_lattice_ahead : through [0, 1] [0, 0] 1 = .ok unitPath ∧
    unitPath.frenet ⟨1 / 4, 2⟩ = .ok ⟨1 / 4, 2⟩ ∧
    Lattice.targetPlace besides unitPath (1 / 4) (3 / 2) = 3 / 4 ∧
    let targets := (Lattice.build besides unitPath (1 / 4) (3 / 2)).targets
    targets.length = 12 ∧ targets[8]? = some ⟨⟨⟨3 / 4, -1⟩, 1, 0, 0, 1⟩, 1⟩ ∧
    ∃! combination : besides.Combination, combination.rank = 8 := by
  have positioned : unitPath.cartesian (1 / 4) 2 = ⟨1 / 4, 2⟩ := by
    rw [straight_unitPath.cartesian_eq_beside]
    simp [Vec2.ahead, Vec2.left]
  obtain ⟨dense, outlined⟩ := exists_sampledAt (through_eq_ok_iff.mp through_eq_unitPath).2
  have foot : unitPath.frenet ⟨1 / 4, 2⟩ = .ok ⟨1 / 4, 2⟩ := by
    have last : unitPath.lastPlace = 1 := rfl
    have found := straight_unitPath.frenet_cartesian_eq outlined (by norm_num : (0 : ℝ) ≤ 1 / 4)
      (by norm_num [last]) 2
    rwa [positioned] at found
  have place : Lattice.targetPlace besides unitPath (1 / 4) (3 / 2) = 3 / 4 := by
    rw [Lattice.targetPlace_eq]
    norm_num [besides, unitPath, sampled]
  obtain ⟨foot', found, -, -, -, length, listed, covered⟩ := lattice_ahead through_eq_unitPath
    ⟨0, ⟨⟨1 / 4, 2, 0⟩, .identity⟩, [8, 0, 0]⟩ ⟨0, 1 / 2, 0⟩ besides (3 / 2)
  obtain rfl : ⟨1 / 4, 2⟩ = foot' := Except.ok.inj (foot.symm.trans found)
  refine ⟨through_eq_unitPath, foot, place, length, ?_, covered 8 ?_⟩
  · have last := listed
      (⟨1, by decide⟩, ⟨0, by decide⟩, ⟨0, by decide⟩, ⟨0, by decide⟩, ⟨2, by decide⟩)
    rw [place] at last
    exact last
  · rw [length]
    decide

end ReferencePath

end ManeuverRanking
