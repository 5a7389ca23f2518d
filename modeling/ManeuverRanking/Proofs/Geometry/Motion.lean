import Mathlib.Analysis.SpecialFunctions.Complex.Arg
import ManeuverRanking.Geometry.Polyline
import ManeuverRanking.Proofs.Scalar.Exact

/-!
Another choice of the map frame: a turn about the vertical axis, followed by a shift.
-/

namespace ManeuverRanking

theorem stepLengths_map {α β γ : Type} {distance : γ → γ → α} {distance' : β → β → α} {change : β → γ}
    (same : ∀ start stop, distance (change start) (change stop) = distance' start stop)
    (points : List β) : stepLengths distance (points.map change) = stepLengths distance' points := by
  induction points with
  | nil => rfl
  | cons first rest ih =>
      cases rest with
      | nil => rfl
      | cons second rest =>
          simp only [List.map_cons, stepLengths, same] at ih ⊢
          rw [ih]

structure RigidMotion where
  yaw : ℝ
  shift : Vec3 ℝ

namespace RigidMotion

variable (motion : RigidMotion)

noncomputable def turn (vector : Vec3 ℝ) : Vec3 ℝ :=
  ⟨vector.x * Real.cos motion.yaw - vector.y * Real.sin motion.yaw,
    vector.x * Real.sin motion.yaw + vector.y * Real.cos motion.yaw,
    vector.z⟩

noncomputable def move (position : Vec3 ℝ) : Vec3 ℝ :=
  let turned := motion.turn position
  ⟨turned.x + motion.shift.x, turned.y + motion.shift.y, turned.z + motion.shift.z⟩

noncomputable def pose (pose : Pose ℝ) : Pose ℝ :=
  ⟨motion.move pose.position, (Quaternion.aboutVertical motion.yaw).mul pose.orientation⟩

theorem move_sub_move (left right : Vec3 ℝ) :
    (motion.move left).sub (motion.move right) = motion.turn (left.sub right) := by
  simp only [move, turn, Vec3.sub, Vec3.mk.injEq]
  refine ⟨?_, ?_, ?_⟩ <;> ring

theorem dot_turn (left right : Vec3 ℝ) :
    (motion.turn left).dot (motion.turn right) = left.dot right := by
  simp only [turn, Vec3.dot]
  have unit := Real.sin_sq_add_cos_sq motion.yaw
  linear_combination (left.x * right.x + left.y * right.y) * unit

theorem norm_turn (vector : Vec3 ℝ) : (motion.turn vector).norm = vector.norm := by
  rw [Vec3.norm, Vec3.norm, dot_turn]

theorem planarNorm_turn (vector : Vec3 ℝ) :
    (motion.turn vector).planarNorm = vector.planarNorm := by
  simp only [turn, Vec3.planarNorm]
  have unit := Real.sin_sq_add_cos_sq motion.yaw
  congr 1
  linear_combination (vector.x * vector.x + vector.y * vector.y) * unit

noncomputable def spot (position : Vec2 ℝ) : Vec2 ℝ :=
  ⟨position.x * Real.cos motion.yaw - position.y * Real.sin motion.yaw + motion.shift.x,
    position.x * Real.sin motion.yaw + position.y * Real.cos motion.yaw + motion.shift.y⟩

noncomputable def way (step : Vec2 ℝ) : Vec2 ℝ :=
  ⟨step.x * Real.cos motion.yaw - step.y * Real.sin motion.yaw,
    step.x * Real.sin motion.yaw + step.y * Real.cos motion.yaw⟩

theorem spot_sub_spot (left right : Vec2 ℝ) :
    (motion.spot left).sub (motion.spot right) = motion.way (left.sub right) := by
  simp only [spot, way, Vec2.sub, Vec2.mk.injEq]
  constructor <;> ring

theorem dot_way (left right : Vec2 ℝ) :
    (motion.way left).dot (motion.way right) = left.dot right := by
  simp only [way, Vec2.dot]
  have unit := Real.sin_sq_add_cos_sq motion.yaw
  linear_combination (left.x * right.x + left.y * right.y) * unit

theorem norm_way (step : Vec2 ℝ) : (motion.way step).norm = step.norm := by
  rw [Vec2.norm, Vec2.norm, dot_way]

theorem cross_way (left right : Vec2 ℝ) :
    (motion.way left).y * (motion.way right).x - (motion.way left).x * (motion.way right).y =
      left.y * right.x - left.x * right.y := by
  simp only [way]
  have unit := Real.sin_sq_add_cos_sq motion.yaw
  linear_combination (left.y * right.x - left.x * right.y) * unit

theorem spot_injective : Function.Injective motion.spot := by
  intro left right same
  by_contra apart
  have moved := (Exact.norm_sub_pos_iff left right).mpr apart
  rw [← motion.norm_way, ← spot_sub_spot] at moved
  exact (Exact.norm_sub_pos_iff _ _).mp moved same

theorem divide_turn (vector : Vec3 ℝ) (divisor : ℝ) :
    (motion.turn vector).divide divisor = motion.turn (vector.divide divisor) := by
  simp only [turn, Vec3.divide, Vec3.mk.injEq, and_true]
  constructor <;> ring

end RigidMotion

namespace Quaternion

variable (angle : ℝ) (quaternion : Quaternion ℝ)

theorem aboutVertical_eq : (aboutVertical angle : Quaternion ℝ) =
    ⟨Real.cos (angle / 2), 0, 0, Real.sin (angle / 2)⟩ := by
  simp only [aboutVertical, Exact.two_eq, zero_mul, one_mul]
  rfl

theorem normSquared_mul_aboutVertical :
    ((aboutVertical angle).mul quaternion).normSquared = quaternion.normSquared := by
  rw [aboutVertical_eq]
  simp only [mul, normSquared]
  have unit := Real.sin_sq_add_cos_sq (angle / 2)
  linear_combination (quaternion.w ^ 2 + quaternion.x ^ 2 + quaternion.y ^ 2 + quaternion.z ^ 2) * unit

theorem normalized_mul_aboutVertical :
    ((aboutVertical angle).mul quaternion).normalized =
      (aboutVertical angle).mul quaternion.normalized := by
  unfold normalized
  dsimp only
  rw [normSquared_mul_aboutVertical]
  split
  · rfl
  · split
    · simp only [mul, Quaternion.mk.injEq]
      refine ⟨?_, ?_, ?_, ?_⟩ <;> ring
    · rfl

theorem rotate_mul_aboutVertical (motion : RigidMotion) (vector : Vec3 ℝ) :
    ((aboutVertical motion.yaw).mul quaternion).rotate vector =
      motion.turn (quaternion.rotate vector) := by
  unfold rotate
  dsimp only
  rw [normalized_mul_aboutVertical, aboutVertical_eq]
  obtain ⟨w, x, y, z⟩ := quaternion.normalized
  obtain ⟨forward, left, up⟩ := vector
  -- The quaternion holds half of the angle, the motion all of it.
  have half : motion.yaw = 2 * (motion.yaw / 2) := by ring
  have cosine := Real.cos_two_mul' (motion.yaw / 2)
  have sine := Real.sin_two_mul (motion.yaw / 2)
  have length := Real.sin_sq_add_cos_sq (motion.yaw / 2)
  rw [← half] at cosine sine
  simp only [RigidMotion.turn, mul, conjugate, cosine, sine, Vec3.mk.injEq]
  refine ⟨?_, ?_, ?_⟩
  · ring
  · ring
  · linear_combination ((-y * forward + x * left + w * up) * w
      + (z * forward + w * left - x * up) * x - (w * forward - z * left + y * up) * y
      + (x * forward + y * left + z * up) * z) * length

end Quaternion

theorem RigidMotion.toMap_pose (motion : RigidMotion) (pose : Pose ℝ) (velocity : List ℝ) :
    (motion.pose pose).toMap velocity = (pose.toMap velocity).map motion.turn := by
  unfold Pose.toMap
  cases Vec3.ofVelocity velocity with
  | error fault => rfl
  | ok vector =>
      exact congrArg Except.ok (pose.orientation.rotate_mul_aboutVertical motion vector)

end ManeuverRanking
