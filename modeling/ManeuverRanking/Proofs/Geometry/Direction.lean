import Mathlib.Analysis.SpecialFunctions.Complex.Arg
import ManeuverRanking.Geometry.Angle
import ManeuverRanking.Proofs.Geometry.Motion

/-!
Directions over the real numbers. Computed angles lie within half a turn of zero, so laws about them
hold up to full turns.
-/

namespace ManeuverRanking

theorem arg_cos_sin (angle : ℝ) :
    (Complex.arg ⟨Real.cos angle, Real.sin angle⟩ : Real.Angle) = angle := by
  have known := Complex.arg_cos_add_sin_mul_I_coe_angle angle
  rwa [Real.Angle.cos_coe, Real.Angle.sin_coe, ← Complex.mk_eq_add_mul_I] at known

theorem atan2_turn {x y : ℝ} (some : ¬ (x = 0 ∧ y = 0)) (angle : ℝ) :
    ((Scalar.atan2 (x * Real.sin angle + y * Real.cos angle)
      (x * Real.cos angle - y * Real.sin angle) : ℝ) : Real.Angle) =
        (Scalar.atan2 y x : ℝ) + angle := by
  have direction : (⟨x, y⟩ : ℂ) ≠ 0 := by
    intro zero
    exact some ⟨congrArg Complex.re zero, congrArg Complex.im zero⟩
  have unit : (⟨Real.cos angle, Real.sin angle⟩ : ℂ) ≠ 0 := by
    intro zero
    have cosine : Real.cos angle = 0 := congrArg Complex.re zero
    have sine : Real.sin angle = 0 := congrArg Complex.im zero
    have length := Real.sin_sq_add_cos_sq angle
    rw [cosine, sine] at length
    norm_num at length
  have sum := Complex.arg_mul_coe_angle direction unit
  rwa [arg_cos_sin] at sum

theorem coe_normalizeAngle (angle : ℝ) : ((normalizeAngle angle : ℝ) : Real.Angle) = angle :=
  arg_cos_sin angle

theorem normalizeAngle_congr {left right : ℝ} (same : (left : Real.Angle) = right) :
    normalizeAngle left = normalizeAngle right := by
  have sine := congrArg Real.Angle.sin same
  have cosine := congrArg Real.Angle.cos same
  simp only [Real.Angle.sin_coe, Real.Angle.cos_coe] at sine cosine
  change Scalar.atan2 (Real.sin left) (Real.cos left) =
    Scalar.atan2 (Real.sin right) (Real.cos right)
  rw [sine, cosine]

/-- Of all angles with one direction it is the one between minus half a turn and half a turn. -/
theorem normalizeAngle_eq_toIocMod (angle : ℝ) :
    normalizeAngle angle = toIocMod Real.two_pi_pos (-Real.pi) angle := by
  have reduced := Complex.arg_cos_add_sin_mul_I_eq_toIocMod angle
  rwa [← Complex.ofReal_cos, ← Complex.ofReal_sin, ← Complex.mk_eq_add_mul_I] at reduced

theorem normalizeAngle_atan2 (y x : ℝ) :
    normalizeAngle (Scalar.atan2 y x : ℝ) = Scalar.atan2 y x := by
  change Complex.arg ⟨Real.cos (Complex.arg ⟨x, y⟩), Real.sin (Complex.arg ⟨x, y⟩)⟩ = _
  have inside := Complex.arg_mem_Ioc ⟨x, y⟩
  have read := Complex.arg_cos_add_sin_mul_I inside
  rwa [← Complex.ofReal_cos, ← Complex.ofReal_sin, ← Complex.mk_eq_add_mul_I] at read

namespace Quaternion

theorem normalized_of_unit {quaternion : Quaternion ℝ} (unit : quaternion.normSquared = 1) :
    quaternion.normalized = quaternion := by
  have close : ManeuverRanking.abs (1 - (1 : ℝ)) < unitTolerance := by
    have positive : (0 : ℝ) < unitTolerance := by
      unfold unitTolerance
      norm_num
    simpa [ManeuverRanking.abs] using positive
  simp only [normalized, unit, if_pos close]

theorem normalized_aboutVertical (angle : ℝ) :
    (aboutVertical angle).normalized = aboutVertical angle := by
  apply normalized_of_unit
  have length := Real.sin_sq_add_cos_sq (angle / 2)
  rw [aboutVertical_eq, normSquared]
  linear_combination length

end Quaternion

namespace Pose

theorem planar_eq (position : Vec3 ℝ) (heading : ℝ) :
    planar position heading = .ok ⟨position, .aboutVertical heading⟩ := by
  simp [planar]

theorem heading_aboutVertical (position : Vec3 ℝ) (angle : ℝ) :
    (Pose.mk position (.aboutVertical angle)).heading = normalizeAngle angle := by
  have double : angle = 2 * (angle / 2) := by ring
  have cosine := Real.cos_two_mul' (angle / 2)
  have sine := Real.sin_two_mul (angle / 2)
  have length := Real.sin_sq_add_cos_sq (angle / 2)
  rw [← double] at cosine sine
  rw [heading, Quaternion.heading, Quaternion.normalized_aboutVertical, Quaternion.aboutVertical_eq]
  simp only [Exact.two_eq]
  change _ = Scalar.atan2 (Real.sin angle) (Real.cos angle)
  congr 1
  · linear_combination -sine
  · linear_combination -cosine - length

end Pose

end ManeuverRanking
