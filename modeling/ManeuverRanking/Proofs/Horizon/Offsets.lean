import Mathlib.Analysis.SpecialFunctions.Complex.Arg
import ManeuverRanking.Proofs.Horizon
import ManeuverRanking.Proofs.Scalar.Exact

/-!
The times of the steps of a horizon after its start. Over the real numbers they are the multiples of
the interval, each rounded to the nearest nanosecond; the first of them is zero and they ascend.
-/

namespace ManeuverRanking

structure Horizon.StepsAt {α : Type} [Scalar α] (horizon : Horizon α) (offset : Nat → Int) :
    Prop where
  timed : ∀ step < horizon.steps, horizon.stepOffset step = .ok (offset step)
  start : offset 0 = 0
  ascending : ∀ first second, first ≤ second → second < horizon.steps →
    offset first ≤ offset second

structure RoundsTo (value : ℝ) (whole : Int) : Prop where
  near : |value - whole| ≤ 1 / 2
  even_of_tie : |value - whole| = 1 / 2 → Even whole

theorem Exact.yields_roundEven (value : ℝ) : Yields (roundEven value) (RoundsTo value) := by
  have below := Int.floor_le value
  have above := Int.lt_floor_add_one value
  rw [roundEven, Exact.floor_eq]
  refine .ok ?_
  change RoundsTo value (if value - ((⌊value⌋ : Int) : ℝ) < 0.5 then ⌊value⌋
    else if 0.5 < value - ((⌊value⌋ : Int) : ℝ) then ⌊value⌋ + 1
    else if ⌊value⌋ % 2 = 0 then ⌊value⌋ else ⌊value⌋ + 1)
  rw [Exact.half_eq]
  split
  · rename_i low
    have distance := abs_of_nonneg (sub_nonneg.mpr below)
    exact ⟨by linarith, fun tie => by linarith⟩
  · rename_i notLow
    have distance : |value - ((⌊value⌋ + 1 : Int) : ℝ)| = 1 - (value - (⌊value⌋ : Int)) := by
      push_cast
      rw [abs_of_nonpos (by linarith)]
      ring
    split
    · rename_i high
      exact ⟨by linarith, fun tie => by linarith⟩
    · split
      · rename_i notHigh even
        have tied := abs_of_nonneg (sub_nonneg.mpr below)
        exact ⟨by linarith, fun _ => Int.even_iff.mpr even⟩
      · rename_i notHigh odd
        exact ⟨by linarith, fun _ => Int.even_add_one.mpr fun even => odd (Int.even_iff.mp even)⟩

/-- Rounding keeps the order, since a tie between two neighbours goes to one of them. -/
theorem RoundsTo.mono {first second : ℝ} {whole whole' : Int} (rounded : RoundsTo first whole)
    (rounded' : RoundsTo second whole') (ordered : first ≤ second) : whole ≤ whole' := by
  by_contra crossed
  have low := abs_le.mp rounded.near
  have high := abs_le.mp rounded'.near
  have beyond : whole' + 1 ≤ whole := by omega
  have apart : (whole' : ℝ) + 1 ≤ whole := by exact_mod_cast beyond
  have tie : |first - whole| = 1 / 2 := by
    rw [abs_of_nonpos (by linarith)]
    linarith
  have tie' : |second - whole'| = 1 / 2 := by
    rw [abs_of_nonneg (by linarith)]
    linarith
  have next : whole = whole' + 1 := by
    have bound : (whole : ℝ) ≤ whole' + 1 := by linarith
    exact le_antisymm (by exact_mod_cast bound) beyond
  have even := rounded.even_of_tie tie
  rw [next] at even
  exact Int.even_add_one.mp even (rounded'.even_of_tie tie')

theorem RoundsTo.eq_of_intCast {whole exact : Int} (rounded : RoundsTo exact whole) :
    whole = exact := by
  have itself : RoundsTo exact exact := by
    constructor <;> simp
  exact le_antisymm (rounded.mono itself le_rfl) (itself.mono rounded le_rfl)

theorem Horizon.exists_stepsAt (horizon : Horizon ℝ) :
    ∃ offset, horizon.StepsAt offset ∧
      ∀ step : Nat, RoundsTo (1000000000 * horizon.interval * step) (offset step) := by
  have each (step : Nat) := Exact.yields_roundEven (1000000000 * horizon.interval * step)
  choose offset timed near using each
  refine ⟨offset, ⟨?_, ?_, ?_⟩, near⟩
  · intro step _
    rw [← timed step]
    simp [stepOffset, ofInt, nanosecondsPerSecond]
  · have start := near 0
    rw [Nat.cast_zero, mul_zero, ← Int.cast_zero] at start
    exact start.eq_of_intCast
  · intro first second ordered _
    apply (near first).mono (near second)
    have wide := horizon.interval_pos
    have steps : (first : ℝ) ≤ second := by exact_mod_cast ordered
    gcongr

noncomputable def Horizon.halves (steps : Nat) (some : 0 < steps) : Horizon ℝ :=
  ⟨steps, 1 / 2, some, by norm_num⟩

theorem Horizon.halves_offset {steps : Nat} {some : 0 < steps} {offset : Nat → Int} {step : Nat}
    (near : RoundsTo (1000000000 * (halves steps some).interval * step) (offset step)) :
    offset step = 500000000 * step := by
  apply RoundsTo.eq_of_intCast
  have exact : (1000000000 * (halves steps some).interval * step : ℝ) =
      ((500000000 * step : Int) : ℝ) := by
    simp only [halves]
    push_cast
    ring
  rwa [exact] at near

end ManeuverRanking
