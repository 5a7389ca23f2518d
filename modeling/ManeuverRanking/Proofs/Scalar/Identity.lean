import ManeuverRanking.Proofs.Scalar.Monotone

/-!
Positive floating point numbers that compare as equal are one and the same number. Only zero is
stored in two ways.
-/

namespace ManeuverRanking

namespace Binary64

open Float.Model Float.Model.UnpackedFloat

theorem eq_of_units_pos {value : UnpackedFloat} (positive : 0 < units value) :
    value = .infinity .positive ∨
      ∃ mantissa exponent bound, value = .finite .positive mantissa exponent bound := by
  cases value with
  | notANumber => exact absurd positive (Int.lt_irrefl 0)
  | zero sign => exact absurd positive (Int.lt_irrefl 0)
  | infinity sign =>
      cases sign with
      | positive => exact .inl rfl
      | negative =>
          dsimp only [units, Sign.apply] at positive
          omega
  | finite sign mantissa exponent bound =>
      cases sign with
      | positive => exact .inr ⟨mantissa, exponent, bound, rfl⟩
      | negative =>
          dsimp only [units, Sign.apply] at positive
          omega

theorem eq_of_units_eq {left right : UnpackedFloat} (canonical : Canonical left)
    (canonical' : Canonical right) (positive : 0 < units left) (same : units left = units right) :
    left = right := by
  rcases eq_of_units_pos positive with rfl | ⟨mantissa, exponent, bound, rfl⟩ <;>
    rcases eq_of_units_pos (same ▸ positive) with rfl | ⟨mantissa', exponent', bound', rfl⟩
  · rfl
  · have inside := canonical'.bounds
    dsimp only [units, Sign.apply] at same
    omega
  · have inside := canonical.bounds
    dsimp only [units, Sign.apply] at same
    omega
  · have sized := canonical.1.compare_eq canonical'.1
    have counts := Int.ofNat_inj.mp same
    rw [Nat.compare_eq_eq.mpr counts, Ordering.then_eq_eq, Int.compare_eq_eq,
      Nat.compare_eq_eq] at sized
    exact finite_congr sized.2 sized.1

theorem eq_of_ofFields_eq_infinity {sign sign' : Sign} {field fraction : Nat}
    (found : ofFields sign field fraction = .infinity sign') : field = 2047 ∧ fraction = 0 := by
  have stored := stored_ofFields sign field fraction
  rw [found] at stored
  cases stored with
  | infinity top empty => exact ⟨top, empty⟩

theorem eq_of_ofFields_eq_finite {sign sign' : Sign} {field fraction mantissa : Nat}
    {exponent : Int} {bound : 0 < mantissa}
    (found : ofFields sign field fraction = .finite sign' mantissa exponent bound) :
    (field = 0 ∧ mantissa = fraction ∧ exponent = -1074) ∨
      (0 < field ∧ mantissa = 2 ^ 52 + fraction ∧ exponent = (field : Int) - 1075) := by
  have stored := stored_ofFields sign field fraction
  rw [found] at stored
  cases stored with
  | subnormal low positive => exact .inl ⟨low, rfl, rfl⟩
  | normal high below positive => exact .inr ⟨high, rfl, rfl⟩

theorem eq_of_ofFields_eq {sign sign' : Sign} {field field' fraction fraction' : Nat}
    (short : fraction < 2 ^ 52) (short' : fraction' < 2 ^ 52)
    (positive : 0 < units (ofFields sign field fraction))
    (same : ofFields sign field fraction = ofFields sign' field' fraction') :
    field = field' ∧ fraction = fraction' := by
  rcases eq_of_units_pos positive with infinite | ⟨mantissa, exponent, bound, finite⟩
  · obtain ⟨top, empty⟩ := eq_of_ofFields_eq_infinity infinite
    obtain ⟨top', empty'⟩ := eq_of_ofFields_eq_infinity (same ▸ infinite)
    omega
  · have here := eq_of_ofFields_eq_finite finite
    have there := eq_of_ofFields_eq_finite (same ▸ finite)
    omega

theorem unpack_eq_ofFields_toNat (bits : BitVec 64) :
    UnpackedFloat.unpack Format.binary64 bits =
      ofFields (.ofBitVec (@unpackSign Format.binary64 bits)) (bits.toNat % 2 ^ 63 / 2 ^ 52)
        (bits.toNat % 2 ^ 52) := by
  rw [unpack_eq_ofFields, toNat_unpackExponent, toNat_unpackMantissa]

theorem SignClear.toNat_lt {value : Float} (clear : SignClear value) :
    value.toModel.toBits.toBitVec.toNat < 2 ^ 63 := by
  have sign := ofBitVec_unpackSign value.toModel.toBits.toBitVec
  rw [clear] at sign
  by_cases top : 2 ^ 63 ≤ value.toModel.toBits.toBitVec.toNat
  · rw [decide_eq_true top] at sign
    cases sign
  · omega

theorem ext_toNat {left right : Float}
    (same : left.toModel.toBits.toBitVec.toNat = right.toModel.toBits.toBitVec.toNat) :
    left = right := by
  obtain ⟨⟨bits, valid⟩⟩ := left
  obtain ⟨⟨bits', valid'⟩⟩ := right
  have equal : bits = bits' := UInt64.toBitVec_inj.mp (BitVec.eq_of_toNat_eq same)
  subst equal
  rfl

theorem eq_of_place_eq {left right : Float} (positive : 0 < left) (positive' : 0 < right)
    (same : place left = place right) : left = right := by
  have ahead : 0 < place left := by
    have zero : place 0 = 0 := rfl
    obtain ⟨defined, defined'⟩ := defined_of_lt positive
    have placed := (lt_iff_place_lt defined defined').mp positive
    rwa [zero] at placed
  have unpacked := eq_of_units_eq (canonical_unpack _) (canonical_unpack _) ahead same
  have clear := (signClear_of_pos positive).toNat_lt
  have clear' := (signClear_of_pos positive').toNat_lt
  have fields := unpack_eq_ofFields_toNat left.toModel.toBits.toBitVec
  have fields' := unpack_eq_ofFields_toNat right.toModel.toBits.toBitVec
  have stored : 0 < units left.toModel.unpack := ahead
  change left.toModel.unpack = _ at fields
  change right.toModel.unpack = _ at fields'
  rw [fields] at stored
  rw [fields, fields'] at unpacked
  obtain ⟨field, fraction⟩ := eq_of_ofFields_eq (Nat.mod_lt _ (Nat.two_pow_pos 52))
    (Nat.mod_lt _ (Nat.two_pow_pos 52)) stored unpacked
  apply ext_toNat
  omega

theorem defined_of_le {left right : Float} (atMost : left ≤ right) :
    Defined left ∧ Defined right := by
  rw [le_iff_compare] at atMost
  constructor
  · intro undefined
    rw [undefined] at atMost
    cases atMost
  · intro undefined
    rw [undefined] at atMost
    generalize left.toModel.unpack = other at atMost
    cases other <;> cases atMost

theorem not_lt_of_atMost {left right : Float} (atMost : right ≤ left) : ¬ left < right := by
  intro less
  obtain ⟨defined, defined'⟩ := defined_of_lt less
  have below := (lt_iff_place_lt defined defined').mp less
  have notBelow := (le_iff_place_le defined' defined).mp atMost
  omega

theorem not_lt_self (value : Float) : ¬ value < value := by
  intro less
  obtain ⟨defined, -⟩ := defined_of_lt less
  exact Int.lt_irrefl _ ((lt_iff_place_lt defined defined).mp less)

theorem place_of_sameAs {left right : Float} (same : sameAs left right = true) :
    Defined left ∧ Defined right ∧ place left = place right := by
  simp only [sameAs, Bool.and_eq_true, decide_eq_true_eq] at same
  obtain ⟨defined, defined'⟩ := defined_of_le same.1
  have atMost := (le_iff_place_le defined defined').mp same.1
  have atLeast := (le_iff_place_le defined' defined).mp same.2
  exact ⟨defined, defined', Int.le_antisymm atMost atLeast⟩

/-- A number that compares as equal to a positive one is that number. -/
theorem eq_of_sameAs {left right : Float} (positive : 0 < right) (same : sameAs left right = true) :
    left = right := by
  obtain ⟨defined, defined', placed⟩ := place_of_sameAs same
  have zero := (defined_of_lt positive).1
  have ahead := (lt_iff_place_lt zero defined').mp positive
  rw [← placed, ← lt_iff_place_lt zero defined] at ahead
  exact eq_of_place_eq ahead positive placed

end Binary64

end ManeuverRanking
