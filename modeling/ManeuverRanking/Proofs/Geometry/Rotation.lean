import Mathlib.Analysis.SpecialFunctions.Complex.Arg
import ManeuverRanking.Proofs.Geometry.Direction
import ManeuverRanking.Proofs.Scalar.Ordered

/-!
Orientations as rotations over the real numbers. Conjugation by a quaternion acts linearly on vectors
and scales them by the squared length of the quaternion. A stored orientation is first brought to unit
length; only one that is close to unit length already, or has no length at all, is used as it is. So
lengths are kept by every orientation but zero and those that are close to unit length and miss it.
-/

namespace ManeuverRanking

noncomputable def Vec3.combine (a b : ℝ) (left right : Vec3 ℝ) : Vec3 ℝ :=
  ⟨a * left.x + b * right.x, a * left.y + b * right.y, a * left.z + b * right.z⟩

namespace Quaternion

section Length

variable (quaternion : Quaternion ℝ)

theorem normSquared_eq_sum_sq : quaternion.normSquared =
    quaternion.w ^ 2 + quaternion.x ^ 2 + quaternion.y ^ 2 + quaternion.z ^ 2 := by
  rw [normSquared]
  ring

theorem normSquared_nonneg : 0 ≤ quaternion.normSquared := by
  rw [normSquared_eq_sum_sq]
  positivity

theorem normSquared_pos_iff : 0 < quaternion.normSquared ↔ quaternion ≠ ⟨0, 0, 0, 0⟩ := by
  obtain ⟨w, x, y, z⟩ := quaternion
  rw [lt_iff_le_and_ne, and_iff_right (normSquared_nonneg _), ne_comm, ne_eq, ne_eq, not_iff_not,
    normSquared_eq_sum_sq, Quaternion.mk.injEq]
  constructor
  · intro none
    refine ⟨?_, ?_, ?_, ?_⟩ <;> nlinarith [sq_nonneg w, sq_nonneg x, sq_nonneg y, sq_nonneg z]
  · rintro ⟨rfl, rfl, rfl, rfl⟩
    norm_num

theorem dot_rotate (left right : Vec3 ℝ) :
    (quaternion.rotate left).dot (quaternion.rotate right) =
      quaternion.normalized.normSquared * quaternion.normalized.normSquared * left.dot right := by
  simp only [rotate, mul, conjugate, Vec3.dot, normSquared]
  ring

theorem norm_rotate (vector : Vec3 ℝ) :
    (quaternion.rotate vector).norm = quaternion.normalized.normSquared * vector.norm := by
  rw [Vec3.norm, dot_rotate]
  change Real.sqrt _ = _ * Real.sqrt _
  rw [Real.sqrt_mul (mul_self_nonneg _), Real.sqrt_mul_self (normSquared_nonneg _)]

theorem rotate_combine (a b : ℝ) (left right : Vec3 ℝ) :
    quaternion.rotate (Vec3.combine a b left right) =
      Vec3.combine a b (quaternion.rotate left) (quaternion.rotate right) := by
  simp only [rotate, mul, conjugate, Vec3.combine, Vec3.mk.injEq]
  refine ⟨?_, ?_, ?_⟩ <;> ring

variable {quaternion}

theorem normalized_of_close (close : |1 - quaternion.normSquared| < unitTolerance) :
    quaternion.normalized = quaternion := by
  rw [← Exact.abs_eq] at close
  exact if_pos close

theorem normalized_zero : (⟨0, 0, 0, 0⟩ : Quaternion ℝ).normalized = ⟨0, 0, 0, 0⟩ := by
  unfold normalized
  dsimp only
  split
  · rfl
  · split <;> simp

theorem normSquared_normalized_of_far (some : quaternion ≠ ⟨0, 0, 0, 0⟩)
    (far : unitTolerance ≤ |1 - quaternion.normSquared|) :
    quaternion.normalized.normSquared = 1 := by
  rw [← Exact.abs_eq, ← not_lt] at far
  have positive := quaternion.normSquared_pos_iff.mpr some
  have length : (0 : ℝ) < Scalar.sqrt quaternion.normSquared := Real.sqrt_pos.mpr positive
  have square : Scalar.sqrt quaternion.normSquared * Scalar.sqrt quaternion.normSquared =
      quaternion.normSquared := Real.mul_self_sqrt positive.le
  unfold normalized
  dsimp only
  rw [if_neg far, if_pos length]
  generalize Scalar.sqrt quaternion.normSquared = norm at length square
  simp only [normSquared] at square ⊢
  field_simp
  linear_combination -square

theorem normSquared_normalized_eq_one_iff : quaternion.normalized.normSquared = 1 ↔
    quaternion.normSquared = 1 ∨
      quaternion ≠ ⟨0, 0, 0, 0⟩ ∧ unitTolerance ≤ |1 - quaternion.normSquared| := by
  constructor
  · intro unit
    rcases lt_or_ge |1 - quaternion.normSquared| unitTolerance with close | far
    · rw [normalized_of_close close] at unit
      exact .inl unit
    · refine .inr ⟨?_, far⟩
      rintro rfl
      rw [normalized_zero, normSquared] at unit
      norm_num at unit
  · rintro (unit | ⟨some, far⟩)
    · rw [normalized_of_unit unit, unit]
    · exact normSquared_normalized_of_far some far

theorem norm_rotate_eq_iff : (∀ vector, (quaternion.rotate vector).norm = vector.norm) ↔
    quaternion.normalized.normSquared = 1 := by
  constructor
  · intro kept
    have forward : (⟨1, 0, 0⟩ : Vec3 ℝ).norm = 1 := by
      change Real.sqrt (1 * 1 + 0 * 0 + 0 * 0) = 1
      norm_num
    have turned := kept ⟨1, 0, 0⟩
    rwa [norm_rotate, forward, mul_one] at turned
  · intro unit vector
    rw [norm_rotate, unit, one_mul]

end Length

theorem mul_identity (quaternion : Quaternion ℝ) : quaternion.mul identity = quaternion := by
  simp [mul, identity]

theorem rotate_identity (vector : Vec3 ℝ) : (identity : Quaternion ℝ).rotate vector = vector := by
  have unit : (identity : Quaternion ℝ).normSquared = 1 := by
    simp [identity, normSquared]
  rw [rotate, normalized_of_unit unit]
  simp [identity, mul, conjugate]

theorem rotate_aboutVertical (motion : RigidMotion) (vector : Vec3 ℝ) :
    (aboutVertical motion.yaw).rotate vector = motion.turn vector := by
  have turned := identity.rotate_mul_aboutVertical motion vector
  rwa [mul_identity, rotate_identity] at turned

end Quaternion

/-- A pose turned by an angle is headed by that angle, less full turns until it is above minus and at
most plus half a turn, and turns velocities in the plane by it. The orientation of any pose acts
linearly on velocities. It keeps all speeds exactly if it has unit length, or a length to divide by
that is far enough from one. -/
theorem Pose.toMap_rotates :
    (∀ (position : Vec3 ℝ) (heading : ℝ), Yields (Pose.planar position heading) fun pose =>
      pose.heading = normalizeAngle heading ∧
      normalizeAngle heading = toIocMod Real.two_pi_pos (-Real.pi) heading ∧
      ∀ a b c, pose.toMap [a, b, c] =
        .ok ⟨a * Real.cos heading - b * Real.sin heading,
          a * Real.sin heading + b * Real.cos heading, c⟩) ∧
    ∀ pose : Pose ℝ,
      (∀ velocity : Vec3 ℝ,
        pose.toMap velocity.toList = .ok (pose.orientation.rotate velocity)) ∧
      (∀ a b left right, pose.orientation.rotate (Vec3.combine a b left right) =
        Vec3.combine a b (pose.orientation.rotate left) (pose.orientation.rotate right)) ∧
      ((∀ velocity : Vec3 ℝ, Yields (pose.toMap velocity.toList) fun turned =>
          turned.norm = velocity.norm) ↔
        pose.orientation.normSquared = 1 ∨ pose.orientation ≠ ⟨0, 0, 0, 0⟩ ∧
          Quaternion.unitTolerance ≤ |1 - pose.orientation.normSquared|) := by
  refine ⟨fun position heading => ?_, fun pose => ⟨fun _ => rfl, ?_, ?_⟩⟩
  · refine ⟨_, planar_eq position heading, heading_aboutVertical position heading,
      normalizeAngle_eq_toIocMod heading, fun a b c => ?_⟩
    exact congrArg Except.ok (Quaternion.rotate_aboutVertical ⟨heading, .zero⟩ ⟨a, b, c⟩)
  · exact pose.orientation.rotate_combine
  · rw [← Quaternion.normSquared_normalized_eq_one_iff, ← Quaternion.norm_rotate_eq_iff]
    refine forall_congr' fun velocity => ⟨?_, fun kept => ⟨_, rfl, kept⟩⟩
    rintro ⟨turned, mapped, kept⟩
    cases mapped
    exact kept

end ManeuverRanking
