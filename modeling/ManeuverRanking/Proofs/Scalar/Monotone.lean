import ManeuverRanking.Proofs.Scalar.Operations
import ManeuverRanking.Scalar.Rounding

/-!
Whole numbers and floating point numbers in order: a greater whole number is no smaller as a
floating point number, and a greater floating point number rounds to no smaller whole number.
-/

namespace ManeuverRanking

namespace Binary64

open Float.Model Float.Model.UnpackedFloat

theorem isFinite_of_place {value : Float} (defined : Defined value)
    (inside : (place value).natAbs < beyond) : IsFinite value.toModel.unpack := by
  unfold place at inside
  unfold Defined at defined
  generalize value.toModel.unpack = unpacked at defined inside ⊢
  cases unpacked with
  | zero sign => trivial
  | finite sign mantissa exponent positive => trivial
  | notANumber => exact absurd rfl defined
  | infinity sign =>
      rw [units_infinity] at inside
      cases sign <;> simp only [Sign.apply] at inside <;> omega

theorem nearestPlace_natCast (fine : Nat) :
    nearestPlace fine = (min (nearestUnits fine) beyond : Nat) :=
  nearestPlace_apply .positive fine

theorem mul_fineSteps_lt {value : Nat} (short : value < 2 ^ 53) : value * fineSteps < beyond := by
  calc value * fineSteps < 2 ^ 53 * fineSteps :=
        Nat.mul_lt_mul_of_pos_right short fineSteps_pos
    _ = 2 ^ (53 + fineDigits) := pow_mul_fineSteps 53
    _ ≤ 2 ^ sizeLimit := Nat.pow_le_pow_right (by decide) (by decide)

theorem pow_unit : 2 ^ ((0 : Int) + 1074).toNat = fineSteps := by
  have digits : ((0 : Int) + 1074).toNat = fineDigits := rfl
  rw [digits, fineSteps]

theorem place_toFloat {value : Nat} (short : value < 2 ^ 53) :
    Defined value.toUInt64.toFloat ∧ place value.toUInt64.toFloat = (value * fineSteps : Nat) := by
  have word : value.toUInt64.toNat = value := by
    rw [Nat.toUInt64, UInt64.toNat_ofNat']
    omega
  have self := nearestUnits_self short ((0 : Int) + 1074).toNat
  obtain ⟨defined, stored⟩ := nearest_normalize value.toUInt64.toNat .positive
    (show -1074 ≤ (0 : Int) by decide)
  refine ⟨defined, stored.trans ?_⟩
  rw [pow_unit] at self ⊢
  rw [word, ← Int.natCast_mul, nearestPlace_natCast, ← Nat.mul_assoc, self,
    Nat.min_eq_left (Nat.le_of_lt (mul_fineSteps_lt short))]

def one : Float := Float.exactlyRepresentablePowersOfTen[0]

theorem unpack_one : one.toModel.unpack = .finite .positive (2 ^ 52) (-52) (Nat.two_pow_pos 52) :=
  rfl

theorem place_one : place one = fineSteps := by
  have units : 2 ^ 52 * 2 ^ ((-52 : Int) + 1074).toNat = fineSteps := by
    have digits : 52 + ((-52 : Int) + 1074).toNat = fineDigits := rfl
    rw [← Nat.pow_add, digits, fineSteps]
  rw [place, unpack_one]
  change ((2 ^ 52 * 2 ^ ((-52 : Int) + 1074).toNat : Nat) : Int) = _
  rw [units]

theorem place_ofNat (value : Nat) : Defined (Float.ofNat value) ∧
    place (Float.ofNat value) = nearestPlace (value * (fineSteps * fineSteps) : Nat) := by
  change Defined (Float.ofScientific value false 0) ∧ place (Float.ofScientific value false 0) = _
  unfold Float.ofScientific
  -- Short numbers are converted exactly and multiplied by one; longer ones are rounded at once.
  split
  · rename_i fast
    obtain ⟨defined, placed⟩ := place_toFloat fast.1
    have finite : IsFinite value.toUInt64.toFloat.toModel.unpack := by
      apply isFinite_of_place defined
      rw [placed, Int.natAbs_natCast]
      exact mul_fineSteps_lt fast.1
    have unit : IsFinite one.toModel.unpack := by
      rw [unpack_one]
      trivial
    have product := place_mul finite unit
    rw [placed, place_one, ← Int.natCast_mul, Nat.mul_assoc] at product
    exact product
  · rename_i slow
    have positive : 0 < value := by omega
    have wide : 52 ≤ (value * 2 ^ 53).log2 := by
      rw [log2_mul_pow positive]
      omega
    have shows := shows_roundWithAccuracy .positive (Nat.mul_pos positive (Nat.two_pow_pos 53))
      (show -2148 ≤ (-53 : Int) by decide) (Or.inl wide)
    have exactly : value * 2 ^ 53 * 2 ^ ((-53 : Int) + 2148).toNat =
        value * (fineSteps * fineSteps) := by
      have digits : 53 + ((-53 : Int) + 2148).toNat = fineDigits + fineDigits := rfl
      rw [Nat.mul_assoc, ← Nat.pow_add, digits, Nat.pow_add, fineSteps]
    rw [exactly] at shows
    have nearest := shows.nearest
    have rounds : UnpackedFloat.ofScientific Format.binary64 value 0 =
        roundWithAccuracy Format.binary64 .positive (value * 2 ^ 53) (-53) .exact := by
      have bits : (2 : Int) ^ Format.binary64.exponentBits = 2048 := rfl
      unfold UnpackedFloat.ofScientific
      rw [bits, dif_neg (by omega), if_neg (by decide), if_neg (by omega), if_pos (by decide)]
      change roundWithAccuracy Format.binary64 .positive (value <<< 53 * 1) (-53) .exact = _
      rw [Nat.mul_one, Nat.shiftLeft_eq]
    rw [← rounds] at nearest
    exact nearest

theorem place_ofNat_mono {first second : Nat} (ordered : first ≤ second) :
    place (Float.ofNat first) ≤ place (Float.ofNat second) := by
  rw [(place_ofNat first).2, (place_ofNat second).2]
  apply nearestPlace_mono
  exact Int.ofNat_le.mpr (Nat.mul_le_mul_right _ ordered)

def signOf (negative : Bool) : Sign :=
  if negative then .negative else .positive

theorem Parts.floor_eq (parts : Parts) (least : -1074 ≤ parts.exponent) :
    parts.floor =
      (signOf parts.negative).apply (parts.significand * 2 ^ (parts.exponent + 1074).toNat : Nat)
        / fineSteps := by
  have signed : (if parts.negative then -(parts.significand : Int) else parts.significand) =
      (signOf parts.negative).apply parts.significand := by
    unfold signOf
    split <;> rfl
  unfold Parts.floor
  simp only [signed]
  rw [apply_natCast_mul]
  generalize (signOf parts.negative).apply parts.significand = value
  -- With an exponent of at least zero the number is whole; otherwise digits are cut off.
  cases exponent : parts.exponent with
  | ofNat up =>
      have digits : (Int.ofNat up + 1074).toNat = up + fineDigits := rfl
      have steps : ((2 ^ (up + fineDigits) : Nat) : Int) = (2 ^ up : Nat) * fineSteps := by
        rw [← Int.natCast_mul, pow_mul_fineSteps]
      rw [digits, steps, ← Int.mul_assoc, Int.mul_ediv_cancel]
      · rfl
      · have positive := fineSteps_pos
        omega
  | negSucc down =>
      rw [exponent] at least
      generalize left : (Int.negSucc down + 1074).toNat = shift
      have digits : down + 1 + shift = fineDigits := by
        rw [fineDigits]
        omega
      have steps : (fineSteps : Int) = (2 ^ (down + 1) : Nat) * (2 ^ shift : Nat) := by
        rw [← Int.natCast_mul, ← Nat.pow_add, digits, fineSteps]
      have positive := Nat.two_pow_pos shift
      rw [steps, Int.mul_ediv_mul_of_pos_left _ _ (by omega)]
      exact Int.fdiv_eq_ediv_of_nonneg _ (Int.natCast_nonneg _)

theorem toNat_unpackMantissa (bits : BitVec 64) :
    (@unpackMantissa Format.binary64 bits).toNat = bits.toNat % 2 ^ 52 := by
  simp [unpackMantissa]

theorem toNat_unpackExponent (bits : BitVec 64) :
    (@unpackExponent Format.binary64 bits).toNat = bits.toNat % 2 ^ 63 / 2 ^ 52 := by
  simp [unpackExponent, Nat.shiftRight_eq_div_pow]
  omega

theorem ofBitVec_unpackSign (bits : BitVec 64) :
    Sign.ofBitVec (@unpackSign Format.binary64 bits) =
      signOf (decide (2 ^ 63 ≤ bits.toNat)) := by
  have bound := bits.isLt
  have value : (@unpackSign Format.binary64 bits).toNat = bits.toNat / 2 ^ 63 := by
    unfold unpackSign
    simp [Nat.shiftRight_eq_div_pow]
    omega
  have clear : @unpackSign Format.binary64 bits = 0#1 ↔ ¬ 2 ^ 63 ≤ bits.toNat := by
    rw [← BitVec.toNat_inj, value]
    simp
  unfold Sign.ofBitVec signOf
  by_cases top : 2 ^ 63 ≤ bits.toNat
  · rw [if_neg fun low => clear.mp low top, if_pos (decide_eq_true top)]
  · rw [if_pos (clear.mpr top), if_neg (fun high => top (of_decide_eq_true high))]

theorem parts?_eq (value : Float) : parts? value =
    let word := value.toModel.toBits.toBitVec.toNat
    if word % 2 ^ 63 / 2 ^ 52 = 2047 then none
    else if word % 2 ^ 63 / 2 ^ 52 = 0 then
      some ⟨decide (2 ^ 63 ≤ word), word % 2 ^ 52, -1074⟩
    else
      some ⟨decide (2 ^ 63 ≤ word), 2 ^ 52 + word % 2 ^ 52,
        ((word % 2 ^ 63 / 2 ^ 52 : Nat) : Int) - 1075⟩ :=
  rfl

theorem parts?_eq_some {value : Float} {parts : Parts} (found : parts? value = some parts) :
    IsFinite value.toModel.unpack ∧ -1074 ≤ parts.exponent ∧
      place value = (signOf parts.negative).apply
        (parts.significand * 2 ^ (parts.exponent + 1074).toNat : Nat) := by
  have unpacked : value.toModel.unpack = _ := unpack_eq_ofFields value.toModel.toBits.toBitVec
  rw [toNat_unpackMantissa, toNat_unpackExponent, ofBitVec_unpackSign] at unpacked
  rw [parts?_eq] at found
  rw [place, unpacked]
  generalize value.toModel.toBits.toBitVec.toNat = word at found ⊢
  dsimp only at found
  unfold ofFields
  by_cases special : word % 2 ^ 63 / 2 ^ 52 = 2047
  · rw [if_pos special] at found
    cases found
  · rw [if_neg special] at found ⊢
    by_cases least : word % 2 ^ 63 / 2 ^ 52 = 0
    · rw [if_pos least, Option.some.injEq] at found
      rw [if_pos least]
      subst parts
      by_cases none : word % 2 ^ 52 = 0
      · rw [dif_pos none]
        refine ⟨trivial, Int.le_refl _, ?_⟩
        simp only [none, Nat.zero_mul]
        cases signOf (decide (2 ^ 63 ≤ word)) <;> rfl
      · rw [dif_neg none]
        exact ⟨trivial, Int.le_refl _, rfl⟩
    · rw [if_neg least, Option.some.injEq] at found
      rw [if_neg least]
      subst parts
      exact ⟨trivial, by simp only; omega, rfl⟩

theorem floor?_eq_some {value : Float} {below : Int} (found : floor? value = some below) :
    IsFinite value.toModel.unpack ∧ below = place value / fineSteps := by
  obtain ⟨parts, read, rfl⟩ := Option.map_eq_some_iff.mp found
  obtain ⟨finite, least, placed⟩ := parts?_eq_some read
  refine ⟨finite, ?_⟩
  rw [placed]
  exact parts.floor_eq least

theorem sub_mono {first second : Float} (finite : IsFinite first.toModel.unpack)
    (finite' : IsFinite second.toModel.unpack) (ordered : place first ≤ place second)
    (from_ bound : Float) : (second - from_ < bound → first - from_ < bound) ∧
      (bound < first - from_ → bound < second - from_) := by
  by_cases whole : IsFinite from_.toModel.unpack
  · obtain ⟨defined, placed⟩ := place_sub finite whole
    obtain ⟨defined', placed'⟩ := place_sub finite' whole
    have less : place (first - from_) ≤ place (second - from_) := by
      rw [placed, placed']
      apply nearestPlace_mono
      exact Int.mul_le_mul_of_nonneg_right (by omega) (Int.natCast_nonneg _)
    constructor
    · intro below
      have known := (defined_of_lt below).2
      rw [lt_iff_place_lt defined' known] at below
      rw [lt_iff_place_lt defined known]
      omega
    · intro above
      have known := (defined_of_lt above).1
      rw [lt_iff_place_lt known defined] at above
      rw [lt_iff_place_lt known defined']
      omega
  · rw [sub_eq_of_not_finite finite finite' whole]
    exact ⟨id, id⟩

end Binary64

open Binary64 in
theorem roundEven_mono {first second : Float} (ordered : place first ≤ place second)
    {whole whole' : Int} (rounded : roundEven first = .ok whole)
    (rounded' : roundEven second = .ok whole') : whole ≤ whole' := by
  unfold roundEven floor at rounded rounded'
  cases below : Scalar.floor? first with
  | none => simp [below, bind, Except.bind] at rounded
  | some low =>
      cases below' : Scalar.floor? second with
      | none => simp [below', bind, Except.bind] at rounded'
      | some low' =>
          obtain ⟨finite, floored⟩ := floor?_eq_some below
          obtain ⟨finite', floored'⟩ := floor?_eq_some below'
          have floors : low ≤ low' := by
            have positive := fineSteps_pos
            have quotients := Int.ediv_le_ediv (c := (fineSteps : Int)) (by omega) ordered
            omega
          clear floored floored'
          simp only [below, bind, Except.bind, pure, Except.pure, Except.ok.injEq] at rounded
          simp only [below', bind, Except.bind, pure, Except.pure, Except.ok.injEq] at rounded'
          -- Above one whole number, what is left decides; above two, rounding moves by at most one.
          by_cases same : low = low'
          · subst low'
            obtain ⟨small, large⟩ := sub_mono finite finite' ordered (ofInt low) 0.5
            by_cases near : first - ofInt low < 0.5
            · rw [if_pos near] at rounded
              split at rounded'
              · omega
              · split at rounded'
                · omega
                · split at rounded' <;> omega
            · rw [if_neg near] at rounded
              rw [if_neg fun near' => near (small near')] at rounded'
              by_cases far : 0.5 < first - ofInt low
              · rw [if_pos far] at rounded
                rw [if_pos (large far)] at rounded'
                omega
              · rw [if_neg far] at rounded
                split at rounded'
                · split at rounded <;> omega
                · split at rounded <;> omega
          · have upper : whole ≤ low + 1 := by
              split at rounded
              · omega
              · split at rounded
                · omega
                · split at rounded <;> omega
            have lower : low' ≤ whole' := by
              split at rounded'
              · omega
              · split at rounded'
                · omega
                · split at rounded' <;> omega
            omega

end ManeuverRanking
