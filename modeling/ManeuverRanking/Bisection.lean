/-!
Bisection: the first position between two ends at which a test fails.
-/

namespace ManeuverRanking

/-- Halves the range between two positions. The answer is the first position at which the test
fails, provided that it fails at every later one. -/
def partitionPoint (early : Nat → Bool) (low high : Nat) : Nat :=
  if low < high then
    let middle := (low + high) / 2
    if early middle then partitionPoint early (middle + 1) high
    else partitionPoint early low middle
  else low
termination_by high - low

/-- Every position before the answer passes, and the answer fails unless it is the upper end. -/
theorem partitionPoint_splits (early : Nat → Bool)
    (downward : ∀ first second, first ≤ second → early second = true → early first = true)
    (low high : Nat) (ordered : low ≤ high)
    (below : ∀ position, position < low → early position = true)
    (above : ∀ position, high ≤ position → early position = false) :
    let point := partitionPoint early low high
    low ≤ point ∧ point ≤ high ∧ (∀ position, position < point → early position = true) ∧
      ∀ position, point ≤ position → early position = false := by
  fun_induction partitionPoint early low high with
  | case1 low high searching middle passes ih =>
      have inside : middle < high := by omega
      obtain ⟨lower, upper, before, after⟩ := ih (by omega)
        (fun position bound => downward position middle (by omega) passes) above
      exact ⟨by omega, upper, before, after⟩
  | case2 low high searching middle fails ih =>
      obtain ⟨lower, upper, before, after⟩ := ih (by omega) below
        (fun position bound => by
          cases passed : early position with
          | false => rfl
          | true => exact absurd (downward middle position bound passed) fails)
      exact ⟨lower, by omega, before, after⟩
  | case3 low high closed =>
      have same : low = high := by omega
      subst same
      exact ⟨Nat.le_refl _, Nat.le_refl _, below, above⟩

end ManeuverRanking
