import ManeuverRanking.Proofs.Scalar.Units

/-!
Rounding to the nearest stored number. Products and differences of numbers are rounded from an exact
value on a finer grid; rounding is a monotone function of that value alone.
-/

namespace ManeuverRanking

namespace Binary64

open Float.Model Float.Model.UnpackedFloat

def halfEven (value shift : Nat) : Nat :=
  let rest := 2 * (value % 2 ^ shift)
  if rest < 2 ^ shift then value / 2 ^ shift
  else if rest = 2 ^ shift then value / 2 ^ shift + value / 2 ^ shift % 2
  else value / 2 ^ shift + 1

theorem halfEven_bounds (value shift : Nat) :
    value / 2 ^ shift ≤ halfEven value shift ∧ halfEven value shift ≤ value / 2 ^ shift + 1 := by
  unfold halfEven
  dsimp only
  split
  · omega
  · split <;> omega

theorem halfEven_mono {first second : Nat} (ordered : first ≤ second) (shift : Nat) :
    halfEven first shift ≤ halfEven second shift := by
  have wholes : first / 2 ^ shift ≤ second / 2 ^ shift := Nat.div_le_div_right ordered
  by_cases same : first / 2 ^ shift = second / 2 ^ shift
  · have rests : first % 2 ^ shift ≤ second % 2 ^ shift := by
      have split := Nat.div_add_mod first (2 ^ shift)
      have split' := Nat.div_add_mod second (2 ^ shift)
      rw [same] at split
      omega
    unfold halfEven
    dsimp only
    rw [same]
    split <;> split <;> (try split) <;> (try split) <;> omega
  · have lower := (halfEven_bounds first shift).2
    have upper := (halfEven_bounds second shift).1
    omega

theorem halfEven_scale (value shift more : Nat) :
    halfEven (value * 2 ^ more) (shift + more) = halfEven value shift := by
  have positive := Nat.two_pow_pos more
  have whole : value * 2 ^ more / 2 ^ (shift + more) = value / 2 ^ shift := by
    rw [Nat.pow_add, Nat.mul_div_mul_right _ _ positive]
  have rest : value * 2 ^ more % 2 ^ (shift + more) = value % 2 ^ shift * 2 ^ more := by
    rw [Nat.pow_add, Nat.mul_mod_mul_right]
  have less : 2 * (value % 2 ^ shift * 2 ^ more) < 2 ^ (shift + more) ↔
      2 * (value % 2 ^ shift) < 2 ^ shift := by
    rw [Nat.pow_add, ← Nat.mul_assoc]
    exact Nat.mul_lt_mul_right positive
  have equal : 2 * (value % 2 ^ shift * 2 ^ more) = 2 ^ (shift + more) ↔
      2 * (value % 2 ^ shift) = 2 ^ shift := by
    rw [Nat.pow_add, ← Nat.mul_assoc]
    exact Nat.mul_left_inj (Nat.ne_of_gt positive)
  simp only [halfEven, whole, rest, less, equal]

theorem halfEven_mul_pow (value shift : Nat) : halfEven (value * 2 ^ shift) shift = value := by
  have positive := Nat.two_pow_pos shift
  unfold halfEven
  dsimp only
  rw [Nat.mul_mod_left, Nat.mul_div_cancel _ positive, if_pos (by omega)]

structure Shifted (value shift : Nat) (left : ExtendedMantissa) : Prop where
  mantissa : left.mantissa = value / 2 ^ shift
  roundBit : left.roundBit = true ↔ 2 ^ shift ≤ 2 * (value % 2 ^ shift)
  stickyBit : left.stickyBit = true ↔
    value % 2 ^ shift ≠ 0 ∧ 2 * (value % 2 ^ shift) ≠ 2 ^ shift

theorem Shifted.start (value : Nat) : Shifted value 0 ⟨value, false, false⟩ := by
  constructor <;> simp [Nat.mod_one]

theorem Shifted.next {value shift : Nat} {left : ExtendedMantissa}
    (shifted : Shifted value shift left) : Shifted value (shift + 1) left.shiftRightOne := by
  have bound : value % 2 ^ shift < 2 ^ shift := Nat.mod_lt _ (Nat.two_pow_pos shift)
  have bit : value / 2 ^ shift % 2 < 2 := Nat.mod_lt _ (by decide)
  have rest : value % 2 ^ (shift + 1) =
      value % 2 ^ shift + 2 ^ shift * (value / 2 ^ shift % 2) := by
    rw [Nat.pow_succ, Nat.mod_mul]
  have power : 2 ^ (shift + 1) = 2 * 2 ^ shift := by ring
  have carried : 2 ^ shift * (value / 2 ^ shift % 2) =
      if value / 2 ^ shift % 2 = 0 then 0 else 2 ^ shift := by
    split
    · rename_i even
      rw [even, Nat.mul_zero]
    · rename_i odd
      rw [show value / 2 ^ shift % 2 = 1 by omega, Nat.mul_one]
  constructor
  · simp only [ExtendedMantissa.shiftRightOne, shifted.mantissa, Nat.div_div_eq_div_mul,
      Nat.pow_succ]
  · rw [rest, carried, power]
    simp only [ExtendedMantissa.shiftRightOne, shifted.mantissa, bne_iff_ne, ne_eq]
    split <;> omega
  · rw [rest, carried, power]
    simp only [ExtendedMantissa.shiftRightOne, Bool.or_eq_true, shifted.roundBit,
      shifted.stickyBit]
    split <;> omega

theorem shifted_shiftRight (value shift : Nat) :
    Shifted value shift ((⟨value, false, false⟩ : ExtendedMantissa) >>> shift) := by
  induction shift with
  | zero => exact Shifted.start value
  | succ shift ih => exact ih.next

theorem Shifted.roundedMantissa {value shift : Nat} {left : ExtendedMantissa}
    (shifted : Shifted value shift left) : left.roundedMantissa = halfEven value shift := by
  obtain ⟨mantissa, roundBit, stickyBit⟩ := left
  have whole : mantissa = value / 2 ^ shift := shifted.mantissa
  have half := shifted.roundBit
  have rest := shifted.stickyBit
  unfold halfEven
  dsimp only
  rw [← whole]
  have positive := Nat.two_pow_pos shift
  cases roundBit <;> cases stickyBit <;> simp only [Bool.false_eq_true, false_iff, true_iff] at half rest
  · rw [if_pos (by omega)]
    rfl
  · rw [if_pos (by omega)]
    rfl
  · rw [if_neg (by omega), if_pos (by omega)]
    rfl
  · rw [if_neg (by omega), if_neg (by omega)]
    rfl

def fineDigits : Nat := 1074

def fineSteps : Nat := 2 ^ fineDigits

theorem pow_mul_fineSteps (shift : Nat) : 2 ^ shift * fineSteps = 2 ^ (shift + fineDigits) :=
  (Nat.pow_add 2 shift fineDigits).symm

theorem fineSteps_pos : 0 < fineSteps :=
  Nat.two_pow_pos fineDigits

def fineShift (fine : Nat) : Nat :=
  max 1074 (fine.log2 - 52)

def nearestUnits (fine : Nat) : Nat :=
  halfEven fine (fineShift fine) * 2 ^ (fineShift fine - 1074)

theorem fineShift_mono {first second : Nat} (ordered : first ≤ second) :
    fineShift first ≤ fineShift second := by
  have logs : first.log2 ≤ second.log2 := by
    by_cases none : first = 0
    · subst first
      simp
    · exact (Nat.le_log2 (by omega)).mpr ((Nat.log2_self_le none).trans ordered)
  unfold fineShift
  omega

theorem halfEven_fineShift_le (fine : Nat) : halfEven fine (fineShift fine) ≤ 2 ^ 53 := by
  have upper := (halfEven_bounds fine (fineShift fine)).2
  have short : fine / 2 ^ fineShift fine < 2 ^ 53 := by
    rw [Nat.div_lt_iff_lt_mul (Nat.two_pow_pos _), ← Nat.pow_add]
    calc fine < 2 ^ (fine.log2 + 1) := Nat.lt_log2_self
      _ ≤ 2 ^ (53 + fineShift fine) :=
          Nat.pow_le_pow_right (by decide) (by unfold fineShift; omega)
  omega

theorem le_halfEven_fineShift {fine : Nat} (large : 1074 < fineShift fine) :
    2 ^ 52 ≤ halfEven fine (fineShift fine) := by
  have log : fineShift fine = fine.log2 - 52 := by
    unfold fineShift at large ⊢
    omega
  have lower := (halfEven_bounds fine (fineShift fine)).1
  have full : 2 ^ 52 ≤ fine / 2 ^ fineShift fine := by
    rw [Nat.le_div_iff_mul_le (Nat.two_pow_pos _), ← Nat.pow_add]
    calc 2 ^ (52 + fineShift fine) ≤ 2 ^ fine.log2 :=
          Nat.pow_le_pow_right (by decide) (by omega)
      _ ≤ fine := Nat.log2_self_le (by rintro rfl; simp at log; omega)
  omega

theorem nearestUnits_mono {first second : Nat} (ordered : first ≤ second) :
    nearestUnits first ≤ nearestUnits second := by
  have shifts := fineShift_mono ordered
  unfold nearestUnits
  by_cases same : fineShift first = fineShift second
  · rw [same]
    exact Nat.mul_le_mul_right _ (halfEven_mono ordered _)
  -- A carry of the smaller value gets no further than the least full mantissa one shift on.
  · have least : 1074 ≤ fineShift first := Nat.le_max_left ..
    calc halfEven first (fineShift first) * 2 ^ (fineShift first - 1074)
        ≤ 2 ^ 53 * 2 ^ (fineShift first - 1074) :=
          Nat.mul_le_mul_right _ (halfEven_fineShift_le first)
      _ = 2 ^ 52 * 2 ^ (fineShift first - 1074 + 1) := by ring
      _ ≤ 2 ^ 52 * 2 ^ (fineShift second - 1074) :=
          Nat.mul_le_mul_left _ (Nat.pow_le_pow_right (by decide) (by omega))
      _ ≤ halfEven second (fineShift second) * 2 ^ (fineShift second - 1074) :=
          Nat.mul_le_mul_right _ (le_halfEven_fineShift (by omega))

theorem nearestUnits_of_short {mantissa shift : Nat} (short : mantissa < 2 ^ 53)
    (whole : 1074 ≤ shift) :
    nearestUnits (mantissa * 2 ^ shift) = mantissa * 2 ^ (shift - 1074) := by
  have within : fineShift (mantissa * 2 ^ shift) ≤ shift := by
    by_cases none : mantissa = 0
    · simpa [none, fineShift] using whole
    · have log : (mantissa * 2 ^ shift).log2 < 53 + shift := by
        rw [Nat.log2_lt (Nat.mul_ne_zero none (Nat.ne_of_gt (Nat.two_pow_pos _))), Nat.pow_add]
        exact Nat.mul_lt_mul_of_pos_right short (Nat.two_pow_pos _)
      unfold fineShift
      omega
  have least : 1074 ≤ fineShift (mantissa * 2 ^ shift) := Nat.le_max_left ..
  unfold nearestUnits
  generalize fineShift (mantissa * 2 ^ shift) = taken at within least ⊢
  obtain ⟨more, rfl⟩ := Nat.exists_eq_add_of_le within
  have digits : mantissa * 2 ^ (taken + more) = mantissa * 2 ^ more * 2 ^ taken := by ring
  have left : taken + more - 1074 = more + (taken - 1074) := by omega
  rw [digits, halfEven_mul_pow, left, Nat.pow_add, Nat.mul_assoc]

theorem nearestUnits_self {mantissa : Nat} (short : mantissa < 2 ^ 53) (shift : Nat) :
    nearestUnits (mantissa * 2 ^ shift * fineSteps) = mantissa * 2 ^ shift := by
  have left : shift + fineDigits - 1074 = shift := Nat.add_sub_cancel shift fineDigits
  rw [Nat.mul_assoc, pow_mul_fineSteps,
    nearestUnits_of_short short (Nat.le_add_left fineDigits shift), left]

theorem nearestUnits_zero : nearestUnits 0 = 0 := by
  have none := nearestUnits_self (by decide : 0 < 2 ^ 53) 0
  rwa [Nat.zero_mul, Nat.zero_mul] at none

def nearestPlace (fine : Int) : Int :=
  if 0 ≤ fine then (min (nearestUnits fine.toNat) beyond : Nat)
  else -(min (nearestUnits (-fine).toNat) beyond : Nat)

theorem nearestPlace_mono {first second : Int} (ordered : first ≤ second) :
    nearestPlace first ≤ nearestPlace second := by
  unfold nearestPlace
  by_cases low : 0 ≤ first
  · rw [if_pos low, if_pos (by omega)]
    have units := nearestUnits_mono (Int.toNat_le_toNat ordered)
    omega
  · rw [if_neg low]
    split
    · omega
    · have units := nearestUnits_mono (show (-second).toNat ≤ (-first).toNat by omega)
      omega

theorem nearestPlace_apply (sign : Sign) (fine : Nat) :
    nearestPlace (sign.apply fine) = sign.apply (min (nearestUnits fine) beyond : Nat) := by
  cases sign with
  | positive =>
      simp only [Sign.apply, nearestPlace, Int.natCast_nonneg, if_true, Int.toNat_natCast]
  | negative =>
      by_cases none : fine = 0
      · subst fine
        simp [Sign.apply, nearestPlace, nearestUnits_zero]
      · have below : ¬ 0 ≤ Sign.negative.apply fine := by
          simp only [Sign.apply]
          omega
        rw [nearestPlace, if_neg below]
        simp only [Sign.apply, Int.neg_neg, Int.toNat_natCast]

def Shows (sign : Sign) (count : Nat) : UnpackedFloat → Prop
  | .zero own => own = sign ∧ count = 0
  | .finite own mantissa exponent _ =>
      own = sign ∧ Fitted mantissa exponent ∧ mantissa * 2 ^ (exponent + 1074).toNat = count
  | _ => False

theorem shiftToTargetExponent_eq (mantissa : Nat) (exponent : Int) :
    shiftToTargetExponent Format.binary64 mantissa exponent .exact =
      let shift := (max (mantissa.log2 + exponent - 52) (-1074) - exponent).toNat
      ((⟨mantissa, false, false⟩ : ExtendedMantissa) >>> shift, exponent + shift) := by
  have target : Format.binary64.targetExponent (totalExponent mantissa exponent) =
      max (mantissa.log2 + exponent - 52) (-1074) := by
    have bits : Format.binary64.mantissaBits = 53 := rfl
    have least : Format.binary64.minExponent = -1074 := rfl
    simp only [Format.targetExponent, totalExponent, bits, least]
    omega
  simp only [shiftToTargetExponent, shiftToExponent, target]
  rfl

theorem shows_carry (sign : Sign) {mantissa : Nat} {exponent : Int} (short : mantissa ≤ 2 ^ 53)
    (least : -1074 ≤ exponent) (full : 2 ^ 52 ≤ mantissa ∨ exponent = -1074) :
    let carried := shiftToTargetExponent Format.binary64 mantissa exponent .exact
    Shows sign (mantissa * 2 ^ (exponent + 1074).toNat)
      (if positive : carried.1.mantissa = 0 then .zero sign
        else .finite sign carried.1.mantissa carried.2 (Nat.pos_of_ne_zero positive)) := by
  intro carried
  have shifted : carried = _ := shiftToTargetExponent_eq mantissa exponent
  -- Only a full mantissa that is rounded up has one digit too many.
  by_cases carry : mantissa = 2 ^ 53
  · subst carry
    have one : (max (((2 ^ 53 : Nat).log2 : Int) + exponent - 52) (-1074) - exponent).toNat = 1 := by
      rw [Nat.log2_two_pow]
      omega
    rw [one] at shifted
    have digits : carried.1.mantissa = 2 ^ 52 := by
      rw [shifted]
      rfl
    have moved : carried.2 = exponent + 1 := by
      rw [shifted]
      rfl
    have some : carried.1.mantissa ≠ 0 := by omega
    rw [dif_neg some]
    change _ ∧ Fitted carried.1.mantissa carried.2 ∧ carried.1.mantissa * _ = _
    rw [digits, moved]
    refine ⟨rfl, ⟨by decide, by omega, Or.inl (Nat.le_refl _)⟩, ?_⟩
    have next : (exponent + 1 + 1074).toNat = (exponent + 1074).toNat + 1 := by omega
    rw [next]
    ring
  · have log : mantissa.log2 ≤ 52 := by
      by_cases none : mantissa = 0
      · simp [none]
      · have bound := (Nat.log2_lt none (k := 53)).mpr (by omega)
        omega
    have zero : (max ((mantissa.log2 : Int) + exponent - 52) (-1074) - exponent).toNat = 0 := by
      omega
    rw [zero] at shifted
    have digits : carried.1.mantissa = mantissa := by
      rw [shifted]
      rfl
    have moved : carried.2 = exponent := by
      rw [shifted]
      exact Int.add_zero exponent
    by_cases none : mantissa = 0
    · rw [dif_pos (digits.trans none)]
      exact ⟨rfl, by rw [none, Nat.zero_mul]⟩
    · have some : carried.1.mantissa ≠ 0 := by omega
      rw [dif_neg some]
      change _ ∧ Fitted carried.1.mantissa carried.2 ∧ carried.1.mantissa * _ = _
      rw [digits, moved]
      exact ⟨rfl, ⟨by omega, least, full⟩, rfl⟩

theorem log2_mul_pow {mantissa : Nat} (positive : 0 < mantissa) (shift : Nat) :
    (mantissa * 2 ^ shift).log2 = mantissa.log2 + shift := by
  have lower := Nat.log2_self_le (Nat.ne_of_gt positive)
  have upper := @Nat.lt_log2_self mantissa
  rw [Nat.log2_eq_iff (Nat.mul_ne_zero (Nat.ne_of_gt positive) (Nat.ne_of_gt (Nat.two_pow_pos _)))]
  constructor
  · rw [Nat.pow_add]
    exact Nat.mul_le_mul_right _ lower
  · calc mantissa * 2 ^ shift < 2 ^ (mantissa.log2 + 1) * 2 ^ shift :=
          Nat.mul_lt_mul_of_pos_right upper (Nat.two_pow_pos _)
      _ = 2 ^ (mantissa.log2 + shift + 1) := by ring

/-- With enough digits to round from, rounding gives the nearest units. -/
theorem shows_roundWithAccuracy (sign : Sign) {mantissa : Nat} {exponent : Int}
    (positive : 0 < mantissa) (least : -2148 ≤ exponent)
    (wide : 52 ≤ mantissa.log2 ∨ exponent ≤ -1074) :
    Shows sign (nearestUnits (mantissa * 2 ^ (exponent + 2148).toNat))
      (roundWithAccuracy Format.binary64 sign mantissa exponent .exact) := by
  have taken : fineShift (mantissa * 2 ^ (exponent + 2148).toNat) =
      (max (mantissa.log2 + exponent - 52) (-1074) - exponent).toNat + (exponent + 2148).toNat := by
    unfold fineShift
    rw [log2_mul_pow positive]
    omega
  have short := halfEven_fineShift_le (mantissa * 2 ^ (exponent + 2148).toNat)
  have full := @le_halfEven_fineShift (mantissa * 2 ^ (exponent + 2148).toNat)
  unfold nearestUnits
  rw [taken] at short full ⊢
  generalize shifts : (max ((mantissa.log2 : Int) + exponent - 52) (-1074) - exponent).toNat = shift
    at short full ⊢
  rw [halfEven_scale] at short full ⊢
  have target : exponent + shift = max ((mantissa.log2 : Int) + exponent - 52) (-1074) := by omega
  -- Rounding fills the mantissa unless the least exponent stops it.
  have filled : 2 ^ 52 ≤ halfEven mantissa shift ∨ exponent + shift = -1074 := by
    by_cases room : exponent + shift = -1074
    · exact Or.inr room
    · exact Or.inl (full (by omega))
  have carried := shows_carry sign short (show -1074 ≤ exponent + shift by omega) filled
  have units : shift + (exponent + 2148).toNat - 1074 = (exponent + shift + 1074).toNat := by omega
  rw [units]
  unfold roundWithAccuracy
  rw [shiftToTargetExponent_eq mantissa exponent]
  dsimp only
  rw [shifts, (shifted_shiftRight mantissa shift).roundedMantissa]
  exact carried

end Binary64

end ManeuverRanking
