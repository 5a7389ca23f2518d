import ManeuverRanking.Proofs.Horizon
import ManeuverRanking.Proofs.Scalar.Monotone

/-!
The steps of a horizon of floating point seconds lie in order, although each of them is rounded on
its own.
-/

namespace ManeuverRanking

theorem isFinite_of_roundEven {value : Float} {rounded : Int}
    (found : roundEven value = .ok rounded) : Binary64.IsFinite value.toModel.unpack := by
  unfold roundEven floor at found
  cases below : Scalar.floor? value with
  | none => simp [below, bind, Except.bind] at found
  | some whole => exact (Binary64.floor?_eq_some below).1

theorem Horizon.steady (horizon : Horizon Float) : horizon.Steady := by
  intro first second early late ordered found found'
  unfold stepOffset at found found'
  have clear : Binary64.SignClear (ofInt nanosecondsPerSecond * horizon.interval) :=
    (Binary64.signClear_ofNat 1000000000).mul (Binary64.signClear_of_pos horizon.interval_pos)
  obtain ⟨base, times⟩ := Binary64.isFinite_of_mul (isFinite_of_roundEven found)
  obtain ⟨-, times'⟩ := Binary64.isFinite_of_mul (isFinite_of_roundEven found')
  have steps := Binary64.place_ofNat_mono ordered
  apply roundEven_mono _ found found'
  rw [(Binary64.place_mul base times).2, (Binary64.place_mul base times').2]
  exact Binary64.nearestPlace_mono (Int.mul_le_mul_of_nonneg_left steps clear.place_nonneg)

end ManeuverRanking
