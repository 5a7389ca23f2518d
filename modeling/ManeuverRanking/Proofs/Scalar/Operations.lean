import ManeuverRanking.Proofs.Scalar.Nearest
import ManeuverRanking.Proofs.Scalar.SignBit

/-!
Places of results. Storing a rounded number keeps its place, up to infinity; so the place of a
product, of a difference and of a whole number is the one nearest to the exact value.
-/

namespace ManeuverRanking

namespace Binary64

open Float.Model Float.Model.UnpackedFloat

theorem unpack_packComponents (sign : Sign) (field : BitVec 11) (fraction : BitVec 52) :
    UnpackedFloat.unpack Format.binary64 (packComponents Format.binary64 sign field fraction) =
      ofFields sign field.toNat fraction.toNat := by
  have own : Sign.ofBitVec sign.toBitVec = sign := by cases sign <;> rfl
  rw [unpack_eq_ofFields, unpackSign_packComponents, unpackExponent_packComponents,
    unpackMantissa_packComponents, own]

theorem log2_eq_iff_full {mantissa : Nat} (positive : 0 < mantissa) (short : mantissa < 2 ^ 53) :
    mantissa.log2 = 52 ↔ 2 ^ 52 ≤ mantissa := by
  rw [Nat.log2_eq_iff (Nat.ne_of_gt positive)]
  exact and_iff_left short

theorem unpack_pack_finite (sign : Sign) {mantissa : Nat} {exponent : Int} (positive : 0 < mantissa)
    (fitted : Fitted mantissa exponent) (most : exponent ≤ 971) :
    UnpackedFloat.unpack Format.binary64
        (UnpackedFloat.pack Format.binary64 (.finite sign mantissa exponent positive)) =
      .finite sign mantissa exponent positive := by
  obtain ⟨short, least, full⟩ := fitted
  have biased : exponent + Format.binary64.exponentBias
      + Format.binary64.mantissaBitsWithoutImplicit = exponent + 1075 := by
    change exponent + 1023 + 52 = _
    omega
  have bits : Format.binary64.mantissaBits = 52 + 1 := rfl
  have few : ¬ 2 ^ Format.binary64.exponentBits ≤ (exponent + 1075).toNat + 1 := by
    change ¬ 2 ^ 11 ≤ _
    omega
  have packed : UnpackedFloat.pack Format.binary64 (.finite sign mantissa exponent positive) =
      if 2 ^ 52 ≤ mantissa then packComponents Format.binary64 sign
        (BitVec.ofNat 11 (exponent + 1075).toNat) (BitVec.ofNat 52 mantissa)
      else packComponents Format.binary64 sign 0#11 (BitVec.ofNat 52 mantissa) := by
    unfold UnpackedFloat.pack
    simp only [biased, bits, few, if_false, Nat.add_right_cancel_iff,
      log2_eq_iff_full positive short]
  rw [packed]
  -- The exponent field tells the leading digit, and is zero where that digit is missing.
  by_cases normal : 2 ^ 52 ≤ mantissa
  · rw [if_pos normal, unpack_packComponents, BitVec.toNat_ofNat, BitVec.toNat_ofNat]
    have field : (exponent + 1075).toNat % 2 ^ 11 = (exponent + 1075).toNat := by omega
    rw [field]
    unfold ofFields
    rw [if_neg (by omega), if_neg (by omega)]
    exact finite_congr (by omega) (by omega)
  · rw [if_neg normal, unpack_packComponents, BitVec.toNat_ofNat]
    have fraction : mantissa % 2 ^ 52 = mantissa := by omega
    have shift : exponent = -1074 := full.resolve_left normal
    subst shift
    change ofFields sign 0 (mantissa % 2 ^ 52) = _
    rw [fraction]
    unfold ofFields
    rw [if_neg (by decide), if_pos rfl, dif_neg (by omega)]

/-- Stored, a rounded number has the place of its units, unless it lies beyond all finite numbers. -/
theorem units_unpack_pack {sign : Sign} {count : Nat} {value : UnpackedFloat}
    (shows : Shows sign count value) :
    (Float.Model.pack value).unpack ≠ .notANumber ∧
      units (Float.Model.pack value).unpack = sign.apply (min count beyond : Nat) := by
  have stored : (Float.Model.pack value).unpack =
      UnpackedFloat.unpack Format.binary64 (UnpackedFloat.pack Format.binary64 value) := rfl
  rw [stored]
  cases value with
  | infinity own => exact shows.elim
  | notANumber => exact shows.elim
  | zero own =>
      obtain ⟨rfl, rfl⟩ := shows
      have zero : UnpackedFloat.unpack Format.binary64
          (UnpackedFloat.pack Format.binary64 (.zero own)) = .zero own :=
        unpack_packComponents own 0#11 0#52
      rw [zero, Nat.zero_min]
      refine ⟨UnpackedFloat.noConfusion, ?_⟩
      cases own <;> rfl
  | finite own mantissa exponent positive =>
      obtain ⟨rfl, fitted, counted⟩ := shows
      by_cases most : exponent ≤ 971
      · have canonical : Canonical (.finite own mantissa exponent positive) := ⟨fitted, most⟩
        have inside := canonical.bounds.2
        rw [unpack_pack_finite own positive fitted most]
        refine ⟨UnpackedFloat.noConfusion, ?_⟩
        change own.apply (mantissa * 2 ^ (exponent + 1074).toNat : Nat) = _
        rw [← counted, Nat.min_eq_left (Nat.le_of_lt inside)]
      -- An exponent that is too large for its field is stored as infinity.
      · have full : 2 ^ 52 ≤ mantissa := fitted.full.resolve_right (by omega)
        have split : 52 + (sizeLimit - 52) = sizeLimit := rfl
        have outside : beyond ≤ count := by
          calc beyond = 2 ^ 52 * 2 ^ (sizeLimit - 52) := by
                rw [← Nat.pow_add, split, beyond]
            _ ≤ mantissa * 2 ^ (exponent + 1074).toNat := by
                apply Nat.mul_le_mul full (Nat.pow_le_pow_right (by decide) _)
                rw [sizeLimit]
                omega
            _ = count := counted
        have packed : UnpackedFloat.pack Format.binary64 (.finite own mantissa exponent positive) =
            packComponents Format.binary64 own (-1#11) 0#52 := by
          unfold UnpackedFloat.pack
          apply if_pos
          change 2 ^ 11 ≤ (exponent + 1023 + 52).toNat + 1
          omega
        have infinite : UnpackedFloat.unpack Format.binary64
            (packComponents Format.binary64 own (-1#11) 0#52) = .infinity own :=
          unpack_packComponents own (-1#11) 0#52
        rw [packed, infinite]
        refine ⟨UnpackedFloat.noConfusion, ?_⟩
        rw [Nat.min_eq_right outside]
        rfl

theorem shows_zero (sign : Sign) : Shows sign (nearestUnits 0) (.zero sign) :=
  ⟨rfl, nearestUnits_zero⟩

def Nearest (value : UnpackedFloat) (fine : Int) : Prop :=
  (Float.Model.pack value).unpack ≠ .notANumber ∧
    units (Float.Model.pack value).unpack = nearestPlace fine

theorem Shows.nearest {sign : Sign} {fine : Nat} {value : UnpackedFloat}
    (shows : Shows sign (nearestUnits fine) value) : Nearest value (sign.apply fine) := by
  obtain ⟨defined, stored⟩ := units_unpack_pack shows
  refine ⟨defined, ?_⟩
  rw [stored, nearestPlace_apply]

theorem Nearest.zero (sign : Sign) : Nearest (.zero sign) 0 := by
  have shows := (shows_zero sign).nearest
  cases sign <;> exact shows

def IsFinite : UnpackedFloat → Prop
  | .zero _ => True
  | .finite .. => True
  | _ => False

theorem SignClear.place_nonneg {value : Float} (clear : SignClear value) : 0 ≤ place value := by
  have sign := clear.unpack
  unfold place
  cases unpacked : value.toModel.unpack with
  | notANumber => exact Int.le_refl 0
  | zero own => exact Int.le_refl 0
  | infinity own =>
      rw [unpacked] at sign
      cases sign
      exact Int.natCast_nonneg _
  | finite own mantissa exponent positive =>
      rw [unpacked] at sign
      cases sign
      exact Int.natCast_nonneg _

theorem apply_mul (sign sign' : Sign) (count count' : Nat) :
    (sign * sign').apply ((count * count' : Nat) : Int) = sign.apply count * sign'.apply count' := by
  rw [Int.natCast_mul]
  cases sign <;> cases sign'
  · exact (Int.neg_mul_neg ..).symm
  · exact (Int.neg_mul ..).symm
  · exact (Int.mul_neg ..).symm
  · rfl

theorem nearest_mul {left right : UnpackedFloat} (canonical : Canonical left)
    (canonical' : Canonical right) (finite : IsFinite left) (finite' : IsFinite right) :
    Nearest (UnpackedFloat.mul Format.binary64 left right) (units left * units right) := by
  cases left with
  | infinity sign => exact finite.elim
  | notANumber => exact finite.elim
  | zero sign =>
      cases right with
      | infinity sign' => exact finite'.elim
      | notANumber => exact finite'.elim
      | zero sign' => exact Nearest.zero _
      | finite sign' mantissa' exponent' positive' =>
          rw [units_zero, Int.zero_mul]
          exact Nearest.zero _
  | finite sign mantissa exponent positive =>
      cases right with
      | infinity sign' => exact finite'.elim
      | notANumber => exact finite'.elim
      | zero sign' =>
          rw [units_zero, Int.mul_zero]
          exact Nearest.zero _
      | finite sign' mantissa' exponent' positive' =>
          obtain ⟨⟨short, least, full⟩, most⟩ := canonical
          obtain ⟨⟨short', least', full'⟩, most'⟩ := canonical'
          -- Unless both exponents are the least, one mantissa is full, and so is the product.
          have wide : 52 ≤ (mantissa * mantissa').log2 ∨ exponent + exponent' ≤ -1074 := by
            by_cases both : exponent = -1074 ∧ exponent' = -1074
            · right
              omega
            · left
              have large : 2 ^ 52 ≤ mantissa * mantissa' := by
                rcases full with full | low
                · exact full.trans (Nat.le_mul_of_pos_right mantissa positive')
                · have other := full'.resolve_right (fun low' => both ⟨low, low'⟩)
                  exact other.trans (Nat.le_mul_of_pos_left mantissa' positive)
              exact (Nat.le_log2 (Nat.ne_of_gt (Nat.mul_pos positive positive'))).mpr large
          have shows := shows_roundWithAccuracy (sign * sign') (Nat.mul_pos positive positive')
            (show -2148 ≤ exponent + exponent' by omega) wide
          have product : mantissa * mantissa' * 2 ^ (exponent + exponent' + 2148).toNat =
              mantissa * 2 ^ (exponent + 1074).toNat * (mantissa' * 2 ^ (exponent' + 1074).toNat) := by
            have total : (exponent + exponent' + 2148).toNat =
                (exponent + 1074).toNat + (exponent' + 1074).toNat := by omega
            rw [total]
            ring
          rw [product] at shows
          have nearest := shows.nearest
          rw [apply_mul] at nearest
          exact nearest

theorem place_mul {left right : Float} (finite : IsFinite left.toModel.unpack)
    (finite' : IsFinite right.toModel.unpack) :
    Defined (left * right) ∧ place (left * right) = nearestPlace (place left * place right) :=
  nearest_mul (canonical_unpack _) (canonical_unpack _) finite finite'

theorem mul_of_not_finite (first second : UnpackedFloat)
    (infinite : ¬ (IsFinite first ∧ IsFinite second)) :
    UnpackedFloat.mul Format.binary64 first second = .notANumber ∨
      ∃ sign, UnpackedFloat.mul Format.binary64 first second = .infinity sign := by
  cases first <;> cases second <;>
    first
      | exact (infinite ⟨trivial, trivial⟩).elim
      | exact Or.inl rfl
      | exact Or.inr ⟨_, rfl⟩

theorem isFinite_of_mul {left right : Float} (finite : IsFinite (left * right).toModel.unpack) :
    IsFinite left.toModel.unpack ∧ IsFinite right.toModel.unpack := by
  have stored : (left * right).toModel.unpack = (Float.Model.pack
      (UnpackedFloat.mul Format.binary64 left.toModel.unpack right.toModel.unpack)).unpack := rfl
  by_contra infinite
  rw [stored] at finite
  rcases mul_of_not_finite _ _ infinite with undefined | ⟨sign, unbounded⟩
  · rw [undefined] at finite
    exact finite
  · have kept : (Float.Model.pack (.infinity sign)).unpack = .infinity sign :=
      unpack_packComponents sign (-1#11) 0#52
    rw [unbounded, kept] at finite
    exact finite

theorem shows_round (sign : Sign) {mantissa : Nat} {exponent : Int} (positive : 0 < mantissa)
    (least : -1074 ≤ exponent) :
    Shows sign (nearestUnits (mantissa * 2 ^ (exponent + 2148).toNat))
      (UnpackedFloat.round Format.binary64 sign mantissa exponent) := by
  have bits : Format.binary64.mantissaBits = 53 := rfl
  have lowest : Format.binary64.minExponent = -1074 := rfl
  unfold UnpackedFloat.round decreaseExponent
  simp only [Format.targetExponent, totalExponent, bits, lowest]
  generalize added : (exponent - max ((mantissa.log2 : Int) + 1 + exponent - (53 : Nat)) (-1074)).toNat
    = more
  rw [Nat.shiftLeft_eq]
  have enough : 0 < mantissa * 2 ^ more := Nat.mul_pos positive (Nat.two_pow_pos more)
  have wide : 52 ≤ (mantissa * 2 ^ more).log2 ∨ exponent - more ≤ -1074 := by
    rw [log2_mul_pow positive]
    omega
  have shows := shows_roundWithAccuracy sign enough (show -2148 ≤ exponent - more by omega) wide
  have total : more + (exponent - more + 2148).toNat = (exponent + 2148).toNat := by omega
  rw [Nat.mul_assoc, ← Nat.pow_add, total] at shows
  exact shows

theorem nearest_normalize (mantissa : Int) {exponent : Int} (zeroSign : Sign)
    (least : -1074 ≤ exponent) :
    Nearest (UnpackedFloat.normalize Format.binary64 mantissa exponent zeroSign)
      (mantissa * (2 ^ (exponent + 1074).toNat * fineSteps : Nat)) := by
  have steps : 2 ^ (exponent + 1074).toNat * fineSteps = 2 ^ (exponent + 2148).toNat := by
    have total : (exponent + 2148).toNat = (exponent + 1074).toNat + fineDigits := by
      rw [fineDigits]
      omega
    rw [total, pow_mul_fineSteps]
  rw [steps]
  unfold UnpackedFloat.normalize
  rcases Int.lt_trichotomy mantissa 0 with below | rfl | above
  · have shows := shows_round .negative (show 0 < (-mantissa).toNat by omega) least
    have nearest := shows.nearest
    rw [Int.compare_eq_lt.mpr below]
    simp only [Sign.apply, Int.natCast_mul] at nearest
    rw [Int.toNat_of_nonneg (by omega), Int.neg_mul, Int.neg_neg] at nearest
    exact nearest
  · rw [Int.compare_eq_eq.mpr rfl, Int.zero_mul]
    exact Nearest.zero _
  · have shows := shows_round .positive (show 0 < mantissa.toNat by omega) least
    have nearest := shows.nearest
    rw [Int.compare_eq_gt.mpr above]
    simp only [Sign.apply, Int.natCast_mul] at nearest
    rw [Int.toNat_of_nonneg (by omega)] at nearest
    exact nearest

theorem apply_natCast_mul (sign : Sign) (count factor : Nat) :
    sign.apply ((count * factor : Nat) : Int) = sign.apply count * factor := by
  rw [Int.natCast_mul]
  cases sign
  · exact (Int.neg_mul ..).symm
  · rfl

theorem nearest_self {value : UnpackedFloat} (canonical : Canonical value) (finite : IsFinite value) :
    Nearest value (units value * fineSteps) := by
  cases value with
  | infinity sign => exact finite.elim
  | notANumber => exact finite.elim
  | zero sign =>
      rw [units_zero, Int.zero_mul]
      exact Nearest.zero sign
  | finite sign mantissa exponent positive =>
      have same := nearestUnits_self canonical.1.short (exponent + 1074).toNat
      have shows : Shows sign
          (nearestUnits (mantissa * 2 ^ (exponent + 1074).toNat * fineSteps))
          (.finite sign mantissa exponent positive) := ⟨rfl, canonical.1, same.symm⟩
      have nearest := shows.nearest
      rw [apply_natCast_mul] at nearest
      exact nearest

theorem units_neg (sign : Sign) {mantissa : Nat} {exponent : Int} (positive : 0 < mantissa) :
    units (.finite (-sign) mantissa exponent positive) =
      -units (.finite sign mantissa exponent positive) := by
  cases sign
  · exact (Int.neg_neg _).symm
  · rfl

theorem apply_decreaseExponent (sign : Sign) (mantissa : Nat) {exponent lower : Int}
    (below : lower ≤ exponent) (least : -1074 ≤ lower) :
    sign.apply ((decreaseExponent mantissa exponent lower).1 : Nat)
        * (2 ^ (lower + 1074).toNat * fineSteps : Nat) =
      sign.apply (mantissa * 2 ^ (exponent + 1074).toNat : Nat) * fineSteps := by
  have total : (exponent - lower).toNat + (lower + 1074).toNat = (exponent + 1074).toNat := by omega
  unfold decreaseExponent
  simp only
  rw [← apply_natCast_mul, ← apply_natCast_mul, Nat.shiftLeft_eq, ← Nat.mul_assoc,
    Nat.mul_assoc mantissa, ← Nat.pow_add, total]

theorem nearest_sub {left right : UnpackedFloat} (canonical : Canonical left)
    (canonical' : Canonical right) (finite : IsFinite left) (finite' : IsFinite right) :
    Nearest (UnpackedFloat.sub Format.binary64 left right)
      ((units left - units right) * fineSteps) := by
  cases left with
  | infinity sign => exact finite.elim
  | notANumber => exact finite.elim
  | zero sign =>
      cases right with
      | infinity sign' => exact finite'.elim
      | notANumber => exact finite'.elim
      | zero sign' =>
          obtain ⟨own, zero⟩ : ∃ own : Sign,
              UnpackedFloat.sub Format.binary64 (.zero sign) (.zero sign') = .zero own := by
            cases sign <;> cases sign' <;> exact ⟨_, rfl⟩
          rw [zero, units_zero, units_zero, Int.sub_self, Int.zero_mul]
          exact Nearest.zero own
      | finite sign' mantissa' exponent' positive' =>
          have opposite : Canonical (.finite (-sign') mantissa' exponent' positive') := canonical'
          have nearest := nearest_self opposite trivial
          rw [units_neg] at nearest
          rw [units_zero, Int.zero_sub]
          exact nearest
  | finite sign mantissa exponent positive =>
      cases right with
      | infinity sign' => exact finite'.elim
      | notANumber => exact finite'.elim
      | zero sign' =>
          have nearest := nearest_self canonical trivial
          rw [units_zero, Int.sub_zero]
          exact nearest
      | finite sign' mantissa' exponent' positive' =>
          have least := canonical.1.least
          have least' := canonical'.1.least
          -- At the smaller of both exponents the difference of the mantissas is exact.
          have nearest := nearest_normalize
            (sign.apply ((decreaseExponent mantissa exponent (min exponent exponent')).1 : Nat)
              - sign'.apply ((decreaseExponent mantissa' exponent' (min exponent exponent')).1 : Nat))
            .positive (show -1074 ≤ min exponent exponent' by omega)
          rw [Int.sub_mul, apply_decreaseExponent sign mantissa (by omega) (by omega),
            apply_decreaseExponent sign' mantissa' (by omega) (by omega), ← Int.sub_mul] at nearest
          exact nearest

theorem place_sub {left right : Float} (finite : IsFinite left.toModel.unpack)
    (finite' : IsFinite right.toModel.unpack) : Defined (left - right) ∧
      place (left - right) = nearestPlace ((place left - place right) * fineSteps) :=
  nearest_sub (canonical_unpack _) (canonical_unpack _) finite finite'

theorem sub_eq_of_not_finite {left left' right : Float} (finite : IsFinite left.toModel.unpack)
    (finite' : IsFinite left'.toModel.unpack) (infinite : ¬ IsFinite right.toModel.unpack) :
    left - right = left' - right := by
  have same : UnpackedFloat.sub Format.binary64 left.toModel.unpack right.toModel.unpack =
      UnpackedFloat.sub Format.binary64 left'.toModel.unpack right.toModel.unpack := by
    generalize left.toModel.unpack = first at finite ⊢
    generalize left'.toModel.unpack = other at finite' ⊢
    generalize right.toModel.unpack = second at infinite ⊢
    cases second with
    | zero sign => exact absurd trivial infinite
    | finite sign mantissa exponent positive => exact absurd trivial infinite
    | notANumber => cases first <;> cases other <;> rfl
    | infinity sign =>
        cases first <;> cases other <;> first | rfl | exact finite.elim | exact finite'.elim
  exact congrArg (fun value => Float.ofModel (.pack value)) same

end Binary64

end ManeuverRanking
