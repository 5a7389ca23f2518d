import Mathlib.Analysis.SpecialFunctions.Complex.Arg
import ManeuverRanking.Proofs.Geometry.Direction

/-!
Two readings of an orientation over the real numbers: its heading, and the direction in the map
plane into which it turns the forward axis of the body. They agree where the pose only turns about
the vertical axis. Of a pose that also rolls and pitches, the heading tells the inverse rotation.
-/

namespace ManeuverRanking

theorem atan2_eq_atan2_iff {x y y' : ℝ} (some : ¬ (x = 0 ∧ y' = 0)) :
    (Scalar.atan2 y x : ℝ) = Scalar.atan2 y' x ↔ y = y' ∨ x = 0 ∧ 0 < y * y' := by
  change Complex.arg ⟨x, y⟩ = Complex.arg ⟨x, y'⟩ ↔ _
  -- Off the vertical the slope tells the angle; upright directions have no slope, only a side.
  by_cases upright : x = 0
  · subst upright
    simp only [true_and] at some ⊢
    rcases lt_or_gt_of_ne some with below | above
    · have down : Complex.arg ⟨0, y'⟩ = -(Real.pi / 2) :=
        Complex.arg_eq_neg_pi_div_two_iff.mpr ⟨rfl, below⟩
      rw [down, Complex.arg_eq_neg_pi_div_two_iff]
      constructor
      · rintro ⟨-, other⟩
        exact .inr (mul_pos_of_neg_of_neg other below)
      · rintro (rfl | same)
        · exact ⟨rfl, below⟩
        · exact ⟨rfl, (neg_iff_neg_of_mul_pos same).mpr below⟩
    · have up : Complex.arg ⟨0, y'⟩ = Real.pi / 2 := Complex.arg_eq_pi_div_two_iff.mpr ⟨rfl, above⟩
      rw [up, Complex.arg_eq_pi_div_two_iff]
      constructor
      · rintro ⟨-, other⟩
        exact .inr (mul_pos other above)
      · rintro (rfl | same)
        · exact ⟨rfl, above⟩
        · exact ⟨rfl, (pos_iff_pos_of_mul_pos same).mpr above⟩
  · constructor
    · intro same
      have slope := congrArg Real.tan same
      rw [Complex.tan_arg, Complex.tan_arg] at slope
      exact .inl ((div_left_inj' upright).mp slope)
    · rintro (rfl | ⟨level, -⟩)
      · rfl
      · exact absurd level upright

namespace Quaternion

variable {quaternion : Quaternion ℝ}

theorem normSquared_conjugate : quaternion.conjugate.normSquared = quaternion.normSquared := by
  simp only [normSquared, conjugate]
  ring

theorem rotate_forward (unit : quaternion.normSquared = 1) :
    quaternion.rotate ⟨1, 0, 0⟩ =
      ⟨1 - 2 * (quaternion.y * quaternion.y + quaternion.z * quaternion.z),
        2 * (quaternion.w * quaternion.z + quaternion.x * quaternion.y),
        2 * (quaternion.x * quaternion.z - quaternion.w * quaternion.y)⟩ := by
  simp only [rotate, normalized_of_unit unit, mul, conjugate, Vec3.mk.injEq]
  unfold normSquared at unit
  refine ⟨?_, ?_, ?_⟩
  · linear_combination unit
  · ring
  · ring

theorem heading_of_unit (unit : quaternion.normSquared = 1) :
    quaternion.heading =
      Scalar.atan2 (2 * (quaternion.w * quaternion.z - quaternion.x * quaternion.y))
        (1 - 2 * (quaternion.y * quaternion.y + quaternion.z * quaternion.z)) := by
  simp only [heading, normalized_of_unit unit, Exact.two_eq]

/-- The heading is the direction in which the body sees the forward axis of the map, taken to the
other side. -/
theorem heading_eq_seen (unit : quaternion.normSquared = 1) :
    quaternion.heading = Scalar.atan2 (-(quaternion.conjugate.rotate ⟨1, 0, 0⟩).y)
      (quaternion.conjugate.rotate ⟨1, 0, 0⟩).x := by
  rw [heading_of_unit unit, rotate_forward (normSquared_conjugate.trans unit)]
  simp only [conjugate]
  congr 1 <;> ring

theorem heading_eq_iff (unit : quaternion.normSquared = 1)
    (level : ¬ ((quaternion.rotate ⟨1, 0, 0⟩).x = 0 ∧ (quaternion.rotate ⟨1, 0, 0⟩).y = 0)) :
    quaternion.heading =
        Scalar.atan2 (quaternion.rotate ⟨1, 0, 0⟩).y (quaternion.rotate ⟨1, 0, 0⟩).x ↔
      quaternion.x * quaternion.y = 0 ∨
        (quaternion.rotate ⟨1, 0, 0⟩).x = 0 ∧
          |quaternion.x * quaternion.y| < |quaternion.w * quaternion.z| := by
  rw [rotate_forward unit] at level ⊢
  rw [heading_of_unit unit, atan2_eq_atan2_iff level]
  generalize quaternion.x * quaternion.y = tilt
  generalize quaternion.w * quaternion.z = turn
  have same : 2 * (turn - tilt) = 2 * (turn + tilt) ↔ tilt = 0 := by
    constructor <;> intro <;> linarith
  have sides : 0 < 2 * (turn - tilt) * (2 * (turn + tilt)) ↔ |tilt| < |turn| := by
    rw [← sq_lt_sq]
    constructor <;> intro <;> linarith
  rw [same, sides]

end Quaternion

namespace Pose

/-- A pose of unit orientation tells its forward axis in the map. Its heading is read off the inverse
rotation, and is the direction of the forward axis exactly for poses without both roll and pitch, or
where the forward axis points to the side and the turn outweighs them. -/
theorem heading_eq_direction_iff {pose : Pose ℝ} (unit : pose.orientation.normSquared = 1) :
    ∃ forward seen : Vec3 ℝ, pose.toMap [1, 0, 0] = .ok forward ∧
      Pose.toMap ⟨pose.position, pose.orientation.conjugate⟩ [1, 0, 0] = .ok seen ∧
      pose.heading = Scalar.atan2 (-seen.y) seen.x ∧
      (¬ (forward.x = 0 ∧ forward.y = 0) →
        (pose.heading = Scalar.atan2 forward.y forward.x ↔
          pose.orientation.x * pose.orientation.y = 0 ∨
            forward.x = 0 ∧ |pose.orientation.x * pose.orientation.y| <
              |pose.orientation.w * pose.orientation.z|)) := by
  refine ⟨_, _, rfl, rfl, ?_, ?_⟩
  · exact pose.orientation.heading_eq_seen unit
  · intro level
    exact pose.orientation.heading_eq_iff unit level

noncomputable def tilted : Pose ℝ :=
  ⟨⟨0, 0, 0⟩, ⟨9 / 10, 3 / 10, 3 / 10, 1 / 10⟩⟩

theorem unit_tilted : tilted.orientation.normSquared = 1 := by
  simp only [tilted, Quaternion.normSquared]
  norm_num

theorem forward_tilted : tilted.toMap [1, 0, 0] = .ok ⟨4 / 5, 9 / 25, -12 / 25⟩ := by
  change Except.ok (tilted.orientation.rotate ⟨1, 0, 0⟩) = _
  rw [Quaternion.rotate_forward unit_tilted, Except.ok.injEq, Vec3.mk.injEq]
  simp only [tilted]
  refine ⟨?_, ?_, ?_⟩ <;> norm_num

theorem tilted_heading_iff : tilted.orientation.normSquared = 1 ∧
    ∃ forward seen : Vec3 ℝ, tilted.toMap [1, 0, 0] = .ok forward ∧
      Pose.toMap ⟨tilted.position, tilted.orientation.conjugate⟩ [1, 0, 0] = .ok seen ∧
      tilted.heading = Scalar.atan2 (-seen.y) seen.x ∧
      ¬ (forward.x = 0 ∧ forward.y = 0) ∧
      ¬ tilted.heading = Scalar.atan2 forward.y forward.x := by
  obtain ⟨forward, seen, ahead, back, read, agrees⟩ := tilted.heading_eq_direction_iff unit_tilted
  obtain rfl : ⟨4 / 5, 9 / 25, -12 / 25⟩ = forward :=
    Except.ok.inj (forward_tilted.symm.trans ahead)
  have level : ¬ ((4 / 5 : ℝ) = 0 ∧ (9 / 25 : ℝ) = 0) := by norm_num
  refine ⟨unit_tilted, _, seen, ahead, back, read, level, ?_⟩
  rw [agrees level]
  simp only [tilted]
  norm_num

/-- Rolled and pitched, the pose heads along the map while it goes to the left. -/
theorem tilted_heading_ne_direction : tilted.orientation.normSquared = 1 ∧
    tilted.toMap [1, 0, 0] = .ok ⟨4 / 5, 9 / 25, -12 / 25⟩ ∧
    ¬ ((4 / 5 : ℝ) = 0 ∧ (9 / 25 : ℝ) = 0) ∧ tilted.heading = 0 ∧
    ¬ tilted.heading = Scalar.atan2 (9 / 25 : ℝ) (4 / 5) := by
  have ahead : tilted.heading = 0 := by
    rw [heading, Quaternion.heading_of_unit unit_tilted]
    simp only [tilted]
    refine Complex.arg_eq_zero_iff.mpr ⟨?_, ?_⟩ <;> norm_num
  refine ⟨unit_tilted, forward_tilted, by norm_num, ahead, ?_⟩
  rw [ahead]
  intro same
  have side := (Complex.arg_eq_zero_iff.mp same.symm).2
  norm_num at side

end Pose

end ManeuverRanking
