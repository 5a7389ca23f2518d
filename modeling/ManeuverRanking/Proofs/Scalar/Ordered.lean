import Mathlib.Algebra.Order.Field.Basic
import Mathlib.Algebra.Order.BigOperators.Group.List
import ManeuverRanking.Proofs.Scalar.Exact
import ManeuverRanking.Scalar.Series

/-!
Comparisons, choices and sums over an ordered field. No number is undefined there, sizes and
clamping are those of the field, and a total does not depend on the order of its additions.
-/

namespace ManeuverRanking

namespace Exact

variable {K : Type} [Field K] [LinearOrder K]

attribute [local instance] Arithmetic.exact

section Order

theorem isUndefined_eq_false (value : K) : isUndefined value = false := by
  simp [isUndefined]

theorem abs_eq [IsStrictOrderedRing K] (value : K) : ManeuverRanking.abs value = |value| := by
  unfold ManeuverRanking.abs
  split
  · rename_i negative
    rw [zero_sub, abs_of_nonpos negative]
  · rename_i positive
    rw [abs_of_pos (not_le.mp positive)]

theorem clip_eq (value lower upper : K) :
    clip value lower upper = min (max value lower) upper := by
  simp [clip, minimum, maximum, isUndefined_eq_false, max_def', min_def]

end Order

section Sums

theorem foldl_add_eq (start : K) (values : List K) :
    values.foldl (· + ·) start = start + values.sum := by
  induction values generalizing start with
  | nil => simp
  | cons value rest ih => rw [List.foldl_cons, ih, List.sum_cons, add_assoc]

theorem sum_eq (values : List K) : sum values = values.sum := by
  rw [sum, foldl_add_eq, zero_add]

theorem lanes_total_eq (lanes : Lanes K) (values : List K) :
    lanes.total values = lanes.join + values.sum := by
  fun_induction Lanes.total lanes values with
  | case1 lanes a b c d e f g h rest ih =>
      rw [ih]
      simp only [Lanes.join, List.sum_cons]
      ring
  | case2 lanes rest short => exact foldl_add_eq _ _

theorem blockTotal_eq (values : List K) : blockTotal values = values.sum := by
  fun_cases blockTotal values with
  | case1 a b c d e f g h rest =>
      rw [lanes_total_eq]
      simp only [Lanes.join, List.sum_cons]
      ring
  | case2 values short => exact sum_eq values

theorem totalWithin_eq (depth : Nat) (values : List K) :
    totalWithin depth values = values.sum := by
  induction depth generalizing values with
  | zero => exact blockTotal_eq values
  | succ depth ih =>
      unfold totalWithin
      split
      · exact blockTotal_eq values
      · dsimp only
        rw [ih, ih, ← List.sum_append, List.take_append_drop]

theorem mean_eq (values : List K) : mean values = values.sum / (values.length : K) := by
  have count : (ofInt (values.length : Int) : K) = (values.length : K) := Int.cast_natCast _
  rw [mean, total, totalWithin_eq, count]

end Sums

end Exact

end ManeuverRanking
