import Mathlib.Analysis.SpecialFunctions.Complex.Arg
import ManeuverRanking.Proofs.Geometry.Direction
import ManeuverRanking.Proofs.Geometry.Interpolation
import ManeuverRanking.Proofs.Metric.Extraction
import ManeuverRanking.Proofs.Scalar.Ordered

/-!
Unwrapping over the real numbers. Corrections are full turns, so every unwrapped angle keeps the
direction it had. Each is reached from the one before by the change of angle with its own correction
alone, which leaves at most half a turn.
-/

namespace ManeuverRanking

theorem coe_remainder (change : ℝ) :
    ((remainder (change + Scalar.pi) (2 * Scalar.pi) - Scalar.pi : ℝ) : Real.Angle) = change := by
  rw [Real.Angle.angle_eq_iff_two_pi_dvd_sub]
  refine ⟨-⌊(change + Real.pi) / (2 * Real.pi)⌋, ?_⟩
  change change + Real.pi - 2 * Real.pi * ((⌊(change + Real.pi) / (2 * Real.pi)⌋ : ℤ) : ℝ)
    - Real.pi - change = _
  push_cast
  ring

theorem coe_shortestTurn (change : ℝ) : ((shortestTurn change : ℝ) : Real.Angle) = change := by
  have wrapped := coe_remainder change
  unfold shortestTurn
  simp only [Exact.two_eq, Exact.sameAs_iff]
  split
  · rename_i half
    -- Half a turn to either side gives the same direction.
    rw [half.1, Real.Angle.coe_neg] at wrapped
    exact Real.Angle.neg_coe_pi.symm.trans wrapped
  · exact wrapped

theorem coe_turnCorrection (change : ℝ) : ((turnCorrection change : ℝ) : Real.Angle) = 0 := by
  unfold turnCorrection
  split
  · rfl
  · rw [Real.Angle.coe_sub, coe_shortestTurn, sub_self]

theorem coe_zipWith_runningTotals {corrections : List ℝ}
    (turns : ∀ correction ∈ corrections, (correction : Real.Angle) = 0) {start : ℝ}
    (whole : (start : Real.Angle) = 0) {angles : List ℝ}
    (enough : angles.length = corrections.length) :
    (List.zipWith (· + ·) angles (runningTotals start corrections)).map Real.Angle.coe =
      angles.map Real.Angle.coe := by
  induction corrections generalizing start angles with
  | nil =>
      obtain rfl := List.length_eq_zero_iff.mp enough
      rfl
  | cons correction rest ih =>
      match angles, enough with
      | angle :: angles, enough =>
          have next : ((start + correction : ℝ) : Real.Angle) = 0 := by
            rw [Real.Angle.coe_add, whole, turns _ List.mem_cons_self, add_zero]
          have later := ih (fun other inside => turns other (List.mem_cons_of_mem _ inside)) next
            (Nat.succ.inj enough)
          simp only [runningTotals, List.zipWith_cons_cons, List.map_cons, later]
          rw [Real.Angle.coe_add, next, add_zero]

theorem coe_unwrapAngles (angles : List ℝ) :
    (unwrapAngles angles).map Real.Angle.coe = angles.map Real.Angle.coe := by
  cases angles with
  | nil => rfl
  | cons first rest =>
      have enough : rest.length =
          ((differences (first :: rest)).map turnCorrection).length := by
        simp [length_differences]
      have turns : ∀ correction ∈ (differences (first :: rest)).map turnCorrection,
          (correction : Real.Angle) = 0 :=
        List.forall_mem_map.mpr fun change _ => coe_turnCorrection change
      have later := coe_zipWith_runningTotals turns Real.Angle.coe_zero enough
      simp only [unwrapAngles, List.map_cons, later]

theorem length_unwrapAngles (angles : List ℝ) : (unwrapAngles angles).length = angles.length := by
  have same := congrArg List.length (coe_unwrapAngles angles)
  simpa using same

theorem getElem_unwrapAngles {angles : List ℝ} {index : Nat}
    (inside : index < (unwrapAngles angles).length) (inside' : index < angles.length) :
    ((unwrapAngles angles)[index] : Real.Angle) = angles[index] := by
  have same := congrArg (·[index]?) (coe_unwrapAngles angles)
  simpa [List.getElem?_eq_getElem inside, List.getElem?_eq_getElem inside'] using same

theorem eq_or_two_pi_le {first second : ℝ} (same : (first : Real.Angle) = second) :
    first = second ∨ 2 * Real.pi ≤ |first - second| := by
  obtain ⟨turns, apart⟩ := Real.Angle.angle_eq_iff_two_pi_dvd_sub.mp same
  rw [apart, abs_mul, abs_of_pos Real.two_pi_pos]
  by_cases none : turns = 0
  · left
    rwa [none, Int.cast_zero, mul_zero, sub_eq_zero] at apart
  · right
    have whole : (1 : ℝ) ≤ |(turns : ℝ)| := by exact_mod_cast Int.one_le_abs none
    exact le_mul_of_one_le_right Real.two_pi_pos.le whole

theorem abs_le_of_short {turn other : ℝ} (short : |turn| ≤ Real.pi)
    (same : (other : Real.Angle) = turn) : |turn| ≤ |other| := by
  rcases eq_or_two_pi_le same with equal | apart
  · rw [equal]
  · have between := abs_sub other turn
    linarith

theorem eq_of_short {turn other : ℝ} (short : |turn| < Real.pi) (short' : |other| ≤ Real.pi)
    (same : (other : Real.Angle) = turn) : other = turn := by
  rcases eq_or_two_pi_le same with equal | apart
  · exact equal
  · have between := abs_sub other turn
    linarith

theorem abs_shortestTurn_le (change : ℝ) : |shortestTurn change| ≤ Real.pi := by
  have turn := Real.two_pi_pos
  have low := Int.sub_floor_div_mul_nonneg (change + Real.pi) turn
  have high := Int.sub_floor_div_mul_lt (change + Real.pi) turn
  have wrapped : (remainder (change + Scalar.pi) (2.0 * Scalar.pi) - Scalar.pi : ℝ) =
      change + Real.pi - ⌊(change + Real.pi) / (2 * Real.pi)⌋ * (2 * Real.pi) - Real.pi := by
    rw [Exact.two_eq, mul_comm (_ : ℝ) (2 * Real.pi)]
    rfl
  unfold shortestTurn
  dsimp only
  split
  · exact (abs_of_pos Real.pi_pos).le
  · rw [wrapped, abs_le]
    constructor <;> linarith

theorem abs_add_turnCorrection_le (change : ℝ) : |change + turnCorrection change| ≤ Real.pi := by
  unfold turnCorrection
  split
  · rename_i small
    rw [Exact.abs_eq] at small
    rw [add_zero]
    exact small.le
  · rw [add_sub_cancel]
    exact abs_shortestTurn_le change

theorem getElem?_differences (values : List ℝ) {index : Nat} (inside : index < values.length)
    (next : index + 1 < values.length) :
    (differences values)[index]? = some (values[index + 1] - values[index]) := by
  induction values generalizing index with
  | nil => cases next
  | cons first rest ih =>
      cases rest with
      | nil => cases next with | step bound => cases bound
      | cons second rest =>
          cases index with
          | zero => rfl
          | succ index =>
              exact ih (Nat.lt_of_succ_lt_succ inside) (Nat.lt_of_succ_lt_succ next)

/-- The total of the corrections so far drops out of the change from one angle to the next. -/
theorem differences_zipWith_runningTotals (first start : ℝ) (rest : List ℝ) :
    differences ((first + start) :: List.zipWith (· + ·) rest
      (runningTotals start ((differences (first :: rest)).map turnCorrection))) =
      (differences (first :: rest)).map fun change => change + turnCorrection change := by
  induction rest generalizing first start with
  | nil => rfl
  | cons second rest ih =>
      have later := ih second (start + turnCorrection (second - first))
      simp only [differences, List.map_cons, runningTotals, List.zipWith_cons_cons, later,
        List.cons.injEq, and_true]
      ring

theorem differences_unwrapAngles (angles : List ℝ) :
    differences (unwrapAngles angles) =
      (differences angles).map fun change => change + turnCorrection change := by
  cases angles with
  | nil => rfl
  | cons first rest =>
      have settled := differences_zipWith_runningTotals first 0 rest
      rwa [add_zero] at settled

/-- From one unwrapped angle to the next leads a shortest change between the two directions. -/
theorem getElem_unwrapAngles_sub {angles : List ℝ} {index : Nat} (inside : index < angles.length)
    (next : index + 1 < angles.length) (inside' : index < (unwrapAngles angles).length)
    (next' : index + 1 < (unwrapAngles angles).length) :
    |(unwrapAngles angles)[index + 1] - (unwrapAngles angles)[index]| ≤ Real.pi ∧
      ((unwrapAngles angles)[index + 1] - (unwrapAngles angles)[index] : Real.Angle) =
        angles[index + 1] - angles[index] := by
  have change : (unwrapAngles angles)[index + 1] - (unwrapAngles angles)[index] =
      angles[index + 1] - angles[index] + turnCorrection (angles[index + 1] - angles[index]) := by
    have settled := getElem?_differences (unwrapAngles angles) inside' next'
    rw [differences_unwrapAngles, List.getElem?_map,
      getElem?_differences angles inside next] at settled
    exact (Option.some.inj settled).symm
  constructor
  · rw [change]
    exact abs_add_turnCorrection_le _
  · rw [getElem_unwrapAngles next' next, getElem_unwrapAngles inside' inside]

theorem exists_turn_blend {angles : List ℝ} {index : Nat} {share : ℝ}
    (inside : index < angles.length) (atEnd : angles.length ≤ index + 1 → share = 0) :
    ∃ turn : ℝ, |turn| ≤ Real.pi ∧
      (∀ next : index + 1 < angles.length,
        (turn : Real.Angle) = angles[index + 1] - angles[index]) ∧
      (blend (unwrapAngles angles) index share : Real.Angle) =
        angles[index] + (share * turn : ℝ) := by
  have length := length_unwrapAngles angles
  have inside' : index < (unwrapAngles angles).length := length ▸ inside
  by_cases next : index + 1 < angles.length
  · have next' : index + 1 < (unwrapAngles angles).length := length ▸ next
    obtain ⟨short, leads⟩ := getElem_unwrapAngles_sub inside next inside' next'
    refine ⟨_, short, fun _ => leads, ?_⟩
    rw [blend_eq_of_lt share next', Real.Angle.coe_add, getElem_unwrapAngles inside' inside]
  · have none := atEnd (Nat.le_of_not_lt next)
    refine ⟨0, by simpa using Real.pi_pos.le, fun bound => absurd bound next, ?_⟩
    rw [none, blend_zero inside', getElem_unwrapAngles inside' inside, mul_zero,
      Real.Angle.coe_zero, add_zero]

end ManeuverRanking
