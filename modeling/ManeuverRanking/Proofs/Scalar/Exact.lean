import Mathlib.Analysis.SpecialFunctions.Complex.Arg
import ManeuverRanking.Geometry.Polyline
import ManeuverRanking.Proofs.Completion
import ManeuverRanking.Scalar.Rounding

/-!
The library over the real numbers: every operation exact, every number finite, the angle of no
direction zero, an array as long as it is asked to be. A quotient by zero is zero here.
-/

namespace ManeuverRanking

@[reducible] def Arithmetic.exact (K : Type) [Field K] [LinearOrder K] : Arithmetic K where
  ofInt := Int.cast
  pow := fun base exponent => base ^ exponent
  decideLt := fun _ _ => inferInstance
  decideLe := fun _ _ => inferInstance

noncomputable instance exactScalar : Scalar ℝ where
  toArithmetic := Arithmetic.exact ℝ
  sqrt := Real.sqrt
  sin := Real.sin
  cos := Real.cos
  tan := Real.tan
  atan2 := fun ordinate abscissa => Complex.arg ⟨abscissa, ordinate⟩
  hypot := fun x y => Real.sqrt (x * x + y * y)
  pi := Real.pi
  floor? := fun value => some ⌊value⌋
  fits := fun _ => true

namespace Exact

variable {left right value : ℝ}

@[simp] theorem isUndefined_eq (value : ℝ) : isUndefined value = false := by
  simp [isUndefined]

@[simp] theorem isFinite_eq (value : ℝ) : isFinite value = true := by
  simp [isFinite]

@[simp] theorem sameAs_iff : sameAs left right = true ↔ left = right := by
  rw [sameAs, Bool.and_eq_true, decide_eq_true_eq, decide_eq_true_eq]
  exact le_antisymm_iff.symm

theorem firstOrSmaller_eq (left right : ℝ) : firstOrSmaller left right = min left right := by
  rw [firstOrSmaller, min_comm, min_def_lt]

theorem firstOrLarger_eq (left right : ℝ) : firstOrLarger left right = max left right := by
  rw [firstOrLarger, max_def_lt]

@[simp] theorem floor_eq (value : ℝ) : floor value = .ok ⌊value⌋ :=
  rfl

theorem ceiling_eq (value : ℝ) : ceiling value = .ok ⌈value⌉ := by
  have split : ((⌊value⌋ : Int) : ℝ) < value ∧ ⌈value⌉ = ⌊value⌋ + 1 ∨
      ¬ ((⌊value⌋ : Int) : ℝ) < value ∧ ⌈value⌉ = ⌊value⌋ := by
    by_cases whole : ((⌊value⌋ : Int) : ℝ) < value
    · refine .inl ⟨whole, Int.ceil_eq_iff.mpr ⟨?_, ?_⟩⟩
      · push_cast
        linarith
      · push_cast
        exact (Int.lt_floor_add_one value).le
    · have same : ((⌊value⌋ : Int) : ℝ) = value := le_antisymm (Int.floor_le value) (not_lt.mp whole)
      refine .inr ⟨whole, ?_⟩
      conv => lhs; rw [← same]
      exact Int.ceil_intCast _
  unfold ceiling
  rcases split with ⟨below, same⟩ | ⟨whole, same⟩
  · rw [same]
    simp only [floor_eq, bind, Except.bind, pure, Except.pure]
    exact congrArg Except.ok (if_pos below)
  · rw [same]
    simp only [floor_eq, bind, Except.bind, pure, Except.pure]
    exact congrArg Except.ok (if_neg whole)

/-! Decimal literals are brought to the field's own numerals before algebra is done with them. -/

theorem half_eq : (0.5 : ℝ) = 1 / 2 := by
  norm_num

theorem two_eq : (2.0 : ℝ) = 2 := by
  norm_num

theorem three_eq : (3.0 : ℝ) = 3 := by
  norm_num

theorem six_eq : (6.0 : ℝ) = 6 := by
  norm_num

theorem completes_roundEven (value : ℝ) : Completes (roundEven value) :=
  completes_ok _

theorem norm_nonneg (vector : Vec2 ℝ) : 0 ≤ vector.norm :=
  Real.sqrt_nonneg _

theorem norm_sub_pos_iff (start stop : Vec2 ℝ) : 0 < (stop.sub start).norm ↔ start ≠ stop := by
  obtain ⟨x, y⟩ := start
  obtain ⟨x', y'⟩ := stop
  change 0 < Real.sqrt ((x' - x) * (x' - x) + (y' - y) * (y' - y)) ↔ _
  rw [Real.sqrt_pos]
  constructor
  · rintro apart ⟨⟩
    simp at apart
  · intro apart
    by_contra none
    have first : x' - x = 0 := by nlinarith [mul_self_nonneg (x' - x), mul_self_nonneg (y' - y)]
    have second : y' - y = 0 := by nlinarith [mul_self_nonneg (x' - x), mul_self_nonneg (y' - y)]
    exact apart (by rw [sub_eq_zero.mp first, sub_eq_zero.mp second])

end Exact

end ManeuverRanking
