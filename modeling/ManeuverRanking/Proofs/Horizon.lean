import ManeuverRanking.Horizon
import ManeuverRanking.Proofs.Scalar.SignBit

/-!
The steps of a horizon lie at or after its start.
-/

namespace ManeuverRanking

def Horizon.Forward {α : Type} [Scalar α] (horizon : Horizon α) : Prop :=
  ∀ (step : Nat) (offset : Int), horizon.stepOffset step = .ok offset → 0 ≤ offset

def Horizon.Steady {α : Type} [Scalar α] (horizon : Horizon α) : Prop :=
  ∀ (first second : Nat) (early late : Int), first ≤ second →
    horizon.stepOffset first = .ok early → horizon.stepOffset second = .ok late → early ≤ late

theorem roundEven_nonneg {value : Float} (clear : Binary64.SignClear value) {rounded : Int}
    (found : roundEven value = .ok rounded) : 0 ≤ rounded := by
  unfold roundEven floor at found
  cases below : Scalar.floor? value with
  | none => simp [below, bind, Except.bind] at found
  | some whole =>
      have bound : 0 ≤ whole := Binary64.floor_nonneg clear below
      simp only [below, bind, Except.bind, pure, Except.pure, Except.ok.injEq] at found
      split at found
      · omega
      · split at found
        · omega
        · split at found <;> omega

theorem Horizon.forward (horizon : Horizon Float) : horizon.Forward := by
  intro step offset found
  apply roundEven_nonneg _ found
  apply Binary64.SignClear.mul
  · apply Binary64.SignClear.mul
    · exact Binary64.signClear_ofNat 1000000000
    · exact Binary64.signClear_of_pos horizon.interval_pos
  · exact Binary64.signClear_ofNat step

end ManeuverRanking
