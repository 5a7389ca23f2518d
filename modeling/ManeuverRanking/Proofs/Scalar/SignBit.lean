import ManeuverRanking.Scalar.Binary64

/-!
Floating point numbers whose sign bit is clear: positive numbers, positive zero and the undefined
number. Products of them and whole numbers from zero on are such numbers too, and their floor is not
negative.
-/

namespace ManeuverRanking

namespace Binary64

open Float.Model Float.Model.UnpackedFloat

def HasSign (sign : Sign) : UnpackedFloat → Prop
  | .infinity own => own = sign
  | .notANumber => True
  | .zero own => own = sign
  | .finite own _ _ _ => own = sign

theorem HasSign.unique {sign other : Sign} {value : UnpackedFloat} (first : HasSign sign value)
    (second : HasSign other value) (defined : value ≠ .notANumber) : sign = other := by
  cases value with
  | notANumber => exact absurd rfl defined
  | infinity own => exact first.symm.trans second
  | zero own => exact first.symm.trans second
  | finite own mantissa exponent positive => exact first.symm.trans second

theorem HasSign.ite {sign : Sign} {test : Prop} [Decidable test] {first second : UnpackedFloat}
    (yes : test → HasSign sign first) (no : ¬ test → HasSign sign second) :
    HasSign sign (if test then first else second) := by
  by_cases holds : test
  · rw [if_pos holds]
    exact yes holds
  · rw [if_neg holds]
    exact no holds

theorem HasSign.dite {sign : Sign} {test : Prop} [Decidable test] {first : test → UnpackedFloat}
    {second : ¬ test → UnpackedFloat} (yes : ∀ holds, HasSign sign (first holds))
    (no : ∀ fails, HasSign sign (second fails)) :
    HasSign sign (if holds : test then first holds else second holds) := by
  by_cases holds : test
  · rw [dif_pos holds]
    exact yes holds
  · rw [dif_neg holds]
    exact no holds

theorem hasSign_roundWithAccuracy (format : Format) (sign : Sign) (mantissa : Nat)
    (exponent : Int) (accuracy : Accuracy) :
    HasSign sign (roundWithAccuracy format sign mantissa exponent accuracy) :=
  HasSign.dite (fun _ => rfl) (fun _ => rfl)

theorem positive_mul (format : Format) {left right : UnpackedFloat} (first : HasSign .positive left)
    (second : HasSign .positive right) : HasSign .positive (mul format left right) := by
  cases left <;> cases right <;> cases first <;> cases second
  case finite.finite => exact hasSign_roundWithAccuracy ..
  all_goals trivial

theorem positive_ofNat (format : Format) (value : Nat) :
    HasSign .positive (UnpackedFloat.ofNat format value) := by
  unfold UnpackedFloat.ofNat UnpackedFloat.ofInt UnpackedFloat.normalize
  split
  · rename_i below
    have less := Int.compare_eq_lt.mp below
    omega
  · rfl
  · exact hasSign_roundWithAccuracy ..

def SignClear (value : Float) : Prop :=
  @unpackSign Format.binary64 value.toModel.toBits.toBitVec = 0#1

theorem unpackSign_packComponents (format : Format) (sign : Sign)
    (exponent : BitVec format.exponentBits) (mantissa : BitVec format.mantissaBitsWithoutImplicit) :
    unpackSign (packComponents format sign exponent mantissa) = sign.toBitVec := by
  apply BitVec.eq_of_getLsbD_eq
  intro position bound
  have first : position = 0 := by omega
  subst first
  unfold unpackSign packComponents
  simp [BitVec.getLsbD_append, BitVec.getElem_append]

theorem signClear_pack {value : UnpackedFloat} (known : HasSign .positive value) :
    SignClear (.ofModel (.pack value)) := by
  change unpackSign (UnpackedFloat.pack Format.binary64 value) = 0#1
  cases value with
  | notANumber => exact unpackSign_packComponents ..
  | infinity sign =>
      cases known
      exact unpackSign_packComponents ..
  | zero sign =>
      cases known
      exact unpackSign_packComponents ..
  | finite sign mantissa exponent bound =>
      cases known
      unfold UnpackedFloat.pack
      simp only
      split
      · exact unpackSign_packComponents ..
      · split <;> exact unpackSign_packComponents ..

theorem hasSign_unpack (value : Float) :
    HasSign (.ofBitVec (@unpackSign Format.binary64 value.toModel.toBits.toBitVec))
      value.toModel.unpack :=
  HasSign.ite (fun _ => HasSign.ite (fun _ => rfl) (fun _ => trivial))
    (fun _ => HasSign.ite (fun _ => HasSign.dite (fun _ => rfl) (fun _ => rfl)) (fun _ => rfl))

theorem SignClear.unpack {value : Float} (clear : SignClear value) :
    HasSign .positive value.toModel.unpack := by
  have sign := hasSign_unpack value
  rw [clear] at sign
  exact sign

theorem signClear_of_unpack {value : Float} (positive : HasSign .positive value.toModel.unpack)
    (defined : value.toModel.unpack ≠ .notANumber) : SignClear value := by
  have clear : ∀ bit : BitVec 1, Sign.ofBitVec bit = .positive → bit = 0#1 := by
    intro bit positive
    unfold Sign.ofBitVec at positive
    split at positive
    · assumption
    · cases positive
  exact clear _ ((hasSign_unpack value).unique positive defined)

theorem SignClear.mul {left right : Float} (first : SignClear left) (second : SignClear right) :
    SignClear (left * right) :=
  signClear_pack (positive_mul _ first.unpack second.unpack)

theorem positive_ofScientific (format : Format) (digits : Nat) {exponent : Int}
    (whole : 0 ≤ exponent) :
    HasSign .positive (UnpackedFloat.ofScientific format digits exponent) := by
  refine HasSign.dite (fun _ => rfl) fun _ => ?_
  refine HasSign.ite (fun _ => rfl) fun _ => ?_
  refine HasSign.ite (fun _ => rfl) fun _ => ?_
  refine HasSign.ite (fun _ => ?_) fun below => absurd whole below
  exact hasSign_roundWithAccuracy ..

theorem signClear_ofNat (value : Nat) : SignClear (Float.ofNat value) := by
  change SignClear (Float.ofScientific value false 0)
  unfold Float.ofScientific
  split
  · apply SignClear.mul
    · exact signClear_pack (positive_ofNat ..)
    · have one : SignClear Float.exactlyRepresentablePowersOfTen[0] := by
        unfold SignClear
        decide +kernel
      exact one
  · exact signClear_pack (positive_ofScientific _ _ (Int.le_refl 0))

theorem signClear_of_pos {value : Float} (positive : 0 < value) : SignClear value := by
  have less : Float.toModel 0 < value.toModel := of_decide_eq_true positive
  change (UnpackedFloat.compare (Float.toModel 0).unpack value.toModel.unpack == some .lt) = true
    at less
  have zero : (Float.toModel 0).unpack = .zero .positive := rfl
  rw [zero] at less
  have sign : HasSign .positive value.toModel.unpack := by
    revert less
    cases value.toModel.unpack with
    | notANumber =>
        intro _
        trivial
    | zero sign =>
        intro less
        cases less
    | infinity sign =>
        intro less
        cases sign with
        | negative => cases less
        | positive => rfl
    | finite sign mantissa exponent bound =>
        intro less
        cases sign with
        | negative => cases less
        | positive => rfl
  apply signClear_of_unpack sign
  intro undefined
  rw [undefined] at less
  cases less

theorem parts_nonnegative {value : Float} (clear : SignClear value) {parts : Parts}
    (found : parts? value = some parts) : parts.negative = false := by
  have below : value.toBits.toNat < signBit := by
    have top := congrArg BitVec.toNat clear
    unfold unpackSign at top
    simp at top
    have bound := value.toModel.toBits.toNat_lt
    rw [Nat.shiftRight_eq_div_pow] at top
    change value.toModel.toBits.toNat < 2 ^ 63
    omega
  unfold parts? at found
  simp only [Nat.not_le.mpr below, decide_false] at found
  split at found
  · simp at found
  · split at found <;> cases found <;> rfl

theorem floor_nonneg {value : Float} (clear : SignClear value) {below : Int}
    (found : floor? value = some below) : 0 ≤ below := by
  obtain ⟨parts, finite, rfl⟩ := Option.map_eq_some_iff.mp found
  have sign := parts_nonnegative clear finite
  unfold Parts.floor
  rw [sign]
  simp only [Bool.false_eq_true, if_false]
  split
  · exact Int.mul_nonneg (Int.natCast_nonneg _) (Int.natCast_nonneg _)
  · exact Int.fdiv_nonneg (Int.natCast_nonneg _) (Int.natCast_nonneg _)

end Binary64

end ManeuverRanking
