import ManeuverRanking.Proofs.Scalar.Identity
import ManeuverRanking.Proofs.Scalar.Ordered

/-!
How numbers compare. Defined numbers compare as their places in a linear order, which is all that a
ranking needs of its totals. It holds of binary floating point as it does of an ordered field.
-/

namespace ManeuverRanking

/-- Defined numbers compare as their places in a linear order, and one that compares as equal to a
positive number is this number. -/
class Comparable (α : Type) [Arithmetic α] : Prop where
  exists_place : ∃ (Place : Type) (_ : LinearOrder Place) (place : α → Place),
    ∀ left right, isUndefined left = false → isUndefined right = false →
      (left < right ↔ place left < place right) ∧ (left ≤ right ↔ place left ≤ place right)
  eq_of_sameAs : ∀ {left right : α}, 0 < right → sameAs left right = true → left = right

instance : Comparable Float where
  exists_place := by
    refine ⟨Int, inferInstance, Binary64.place, fun left right defined defined' => ?_⟩
    rw [Binary64.isUndefined_eq_false_iff] at defined defined'
    exact ⟨Binary64.lt_iff_place_lt defined defined', Binary64.le_iff_place_le defined defined'⟩
  eq_of_sameAs := Binary64.eq_of_sameAs

section

attribute [local instance] Arithmetic.exact

theorem Comparable.exact (K : Type) [Field K] [LinearOrder K] : Comparable K where
  exists_place := ⟨K, inferInstance, id, fun _ _ _ _ => ⟨Iff.rfl, Iff.rfl⟩⟩
  eq_of_sameAs := by
    intro left right _ same
    simp only [sameAs, Bool.and_eq_true, decide_eq_true_eq] at same
    exact le_antisymm same.1 same.2

end

instance : Comparable ℝ :=
  .exact ℝ

end ManeuverRanking
