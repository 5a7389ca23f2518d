import ManeuverRanking.Scalar.Order
import ManeuverRanking.Scalar.Binary64
import Mathlib.Tactic.Ring

/-!
Floating point numbers as places on a grid. Every number but the undefined one is a whole number of
units, the smallest positive number being one of them, and infinity lies right behind all finite
numbers. Comparing two numbers is comparing their places.
-/

namespace ManeuverRanking

namespace Binary64

open Float.Model Float.Model.UnpackedFloat

def sizeLimit : Nat := 2098

def beyond : Nat := 2 ^ sizeLimit

def units : UnpackedFloat → Int
  | .infinity sign => sign.apply beyond
  | .notANumber => 0
  | .zero _ => 0
  | .finite sign mantissa exponent _ =>
      sign.apply (mantissa * 2 ^ (exponent + 1074).toNat : Nat)

theorem units_zero (sign : Sign) : units (.zero sign) = 0 :=
  rfl

theorem units_infinity (sign : Sign) : units (.infinity sign) = sign.apply beyond :=
  rfl

def place (value : Float) : Int :=
  units value.toModel.unpack

def Defined (value : Float) : Prop :=
  value.toModel.unpack ≠ .notANumber

structure Fitted (mantissa : Nat) (exponent : Int) : Prop where
  short : mantissa < 2 ^ 53
  least : -1074 ≤ exponent
  full : 2 ^ 52 ≤ mantissa ∨ exponent = -1074

def Canonical : UnpackedFloat → Prop
  | .finite _ mantissa exponent _ => Fitted mantissa exponent ∧ exponent ≤ 971
  | _ => True

theorem toNat_implicit (fraction : BitVec 52) :
    (1#1 ++ fraction).toNat = 2 ^ 52 + fraction.toNat := by
  rw [BitVec.toNat_append, ← Nat.shiftLeft_add_eq_or_of_lt fraction.isLt]
  rfl

def ofFields (sign : Sign) (field fraction : Nat) : UnpackedFloat :=
  if field = 2047 then if fraction = 0 then .infinity sign else .notANumber
  else if field = 0 then
    if none : fraction = 0 then .zero sign
    else .finite sign fraction (-1074) (Nat.pos_of_ne_zero none)
  else .finite sign (2 ^ 52 + fraction) (field - 1075) (Nat.add_pos_left (Nat.two_pow_pos 52) _)

inductive Stored (sign : Sign) (field fraction : Nat) : UnpackedFloat → Prop
  | infinity (top : field = 2047) (empty : fraction = 0) : Stored sign field fraction (.infinity sign)
  | notANumber (top : field = 2047) : Stored sign field fraction .notANumber
  | zero (low : field = 0) (empty : fraction = 0) : Stored sign field fraction (.zero sign)
  | subnormal (low : field = 0) (positive : 0 < fraction) :
      Stored sign field fraction (.finite sign fraction (-1074) positive)
  | normal (high : 0 < field) (below : field ≠ 2047) (positive : 0 < 2 ^ 52 + fraction) :
      Stored sign field fraction (.finite sign (2 ^ 52 + fraction) (field - 1075) positive)

theorem stored_ofFields (sign : Sign) (field fraction : Nat) :
    Stored sign field fraction (ofFields sign field fraction) := by
  unfold ofFields
  by_cases top : field = 2047
  · rw [if_pos top]
    by_cases empty : fraction = 0
    · rw [if_pos empty]
      exact .infinity top empty
    · rw [if_neg empty]
      exact .notANumber top
  · rw [if_neg top]
    by_cases low : field = 0
    · rw [if_pos low]
      by_cases empty : fraction = 0
      · rw [dif_pos empty]
        exact .zero low empty
      · rw [dif_neg empty]
        exact .subnormal low _
    · rw [if_neg low]
      exact .normal (Nat.pos_of_ne_zero low) top _

theorem finite_congr {sign : Sign} {mantissa mantissa' : Nat} {exponent exponent' : Int}
    {positive : 0 < mantissa} {positive' : 0 < mantissa'} (mantissas : mantissa = mantissa')
    (exponents : exponent = exponent') :
    UnpackedFloat.finite sign mantissa exponent positive =
      .finite sign mantissa' exponent' positive' := by
  subst mantissas exponents
  rfl

theorem unpack_eq_ofFields (bits : BitVec 64) :
    UnpackedFloat.unpack Format.binary64 bits =
      ofFields (.ofBitVec (@unpackSign Format.binary64 bits))
        (@unpackExponent Format.binary64 bits).toNat
        (@unpackMantissa Format.binary64 bits).toNat := by
  have bias : ((Format.exponentBias Format.binary64 : Nat) : Int) + (52 : Nat) = 1075 := rfl
  have special : @unpackExponent Format.binary64 bits = -1#11 ↔
      (@unpackExponent Format.binary64 bits).toNat = 2047 := BitVec.toNat_inj.symm
  have least : @unpackExponent Format.binary64 bits = 0#11 ↔
      (@unpackExponent Format.binary64 bits).toNat = 0 := BitVec.toNat_inj.symm
  have none : @unpackMantissa Format.binary64 bits = 0#52 ↔
      (@unpackMantissa Format.binary64 bits).toNat = 0 := BitVec.toNat_inj.symm
  unfold UnpackedFloat.unpack ofFields
  dsimp only
  by_cases top : @unpackExponent Format.binary64 bits = -1#11
  · rw [if_pos top, if_pos (special.mp top)]
    by_cases empty : @unpackMantissa Format.binary64 bits = 0#52
    · rw [if_pos empty, if_pos (none.mp empty)]
    · rw [if_neg empty, if_neg (fun zero => empty (none.mpr zero))]
  · rw [if_neg top, if_neg (fun full => top (special.mpr full))]
    by_cases low : @unpackExponent Format.binary64 bits = 0#11
    · rw [if_pos low, if_pos (least.mp low)]
      by_cases empty : @unpackMantissa Format.binary64 bits = 0#52
      · rw [dif_pos empty, dif_pos (none.mp empty)]
      · rw [dif_neg empty, dif_neg (fun zero => empty (none.mpr zero))]
        apply finite_congr rfl
        rw [least.mp low, bias]
        rfl
    · rw [if_neg low, if_neg (fun zero => low (least.mpr zero))]
      apply finite_congr (toNat_implicit _)
      rw [bias]

theorem canonical_ofFields (sign : Sign) {field fraction : Nat} (few : field < 2 ^ 11)
    (short : fraction < 2 ^ 52) : Canonical (ofFields sign field fraction) := by
  have stored := stored_ofFields sign field fraction
  generalize ofFields sign field fraction = value at stored ⊢
  cases stored with
  | infinity | notANumber | zero => trivial
  | subnormal low positive => exact ⟨⟨by omega, by omega, Or.inr rfl⟩, by omega⟩
  | normal high below positive => exact ⟨⟨by omega, by omega, Or.inl (by omega)⟩, by omega⟩

theorem canonical_unpack (value : Float.Model) : Canonical value.unpack := by
  have unpacked : value.unpack = _ := unpack_eq_ofFields value.toBits.toBitVec
  rw [unpacked]
  exact canonical_ofFields _ (BitVec.isLt _) (BitVec.isLt _)

namespace Fitted

variable {mantissa mantissa' : Nat} {exponent exponent' : Int}

theorem lt_of_exponent_lt (fitted : Fitted mantissa exponent) (fitted' : Fitted mantissa' exponent')
    (lower : exponent < exponent') :
    mantissa * 2 ^ (exponent + 1074).toNat < mantissa' * 2 ^ (exponent' + 1074).toNat := by
  have least := fitted.least
  have full : 2 ^ 52 ≤ mantissa' := fitted'.full.resolve_right (by omega)
  calc mantissa * 2 ^ (exponent + 1074).toNat
      < 2 ^ 53 * 2 ^ (exponent + 1074).toNat :=
        Nat.mul_lt_mul_of_pos_right fitted.short (Nat.two_pow_pos _)
    _ = 2 ^ 52 * 2 ^ ((exponent + 1074).toNat + 1) := by ring
    _ ≤ mantissa' * 2 ^ (exponent' + 1074).toNat :=
        Nat.mul_le_mul full (Nat.pow_le_pow_right (by decide) (by omega))

theorem compare_eq (fitted : Fitted mantissa exponent) (fitted' : Fitted mantissa' exponent') :
    (compare exponent exponent').then (compare mantissa mantissa') =
      compare (mantissa * 2 ^ (exponent + 1074).toNat)
        (mantissa' * 2 ^ (exponent' + 1074).toNat) := by
  rcases Int.lt_trichotomy exponent exponent' with lower | rfl | higher
  · rw [Int.compare_eq_lt.mpr lower, Nat.compare_eq_lt.mpr (fitted.lt_of_exponent_lt fitted' lower)]
    rfl
  · have positive := Nat.two_pow_pos (exponent + 1074).toNat
    rw [Int.compare_eq_eq.mpr rfl]
    rcases Nat.lt_trichotomy mantissa mantissa' with less | rfl | more
    · rw [Nat.compare_eq_lt.mpr less,
        Nat.compare_eq_lt.mpr (Nat.mul_lt_mul_of_pos_right less positive)]
      rfl
    · rw [Nat.compare_eq_eq.mpr rfl, Nat.compare_eq_eq.mpr rfl]
      rfl
    · rw [Nat.compare_eq_gt.mpr more,
        Nat.compare_eq_gt.mpr (Nat.mul_lt_mul_of_pos_right more positive)]
      rfl
  · rw [Int.compare_eq_gt.mpr higher,
      Nat.compare_eq_gt.mpr (fitted'.lt_of_exponent_lt fitted higher)]
    rfl

end Fitted

theorem Canonical.bounds {sign : Sign} {mantissa : Nat} {exponent : Int} {positive : 0 < mantissa}
    (canonical : Canonical (.finite sign mantissa exponent positive)) :
    0 < mantissa * 2 ^ (exponent + 1074).toNat ∧
      mantissa * 2 ^ (exponent + 1074).toNat < beyond := by
  obtain ⟨fitted, most⟩ := canonical
  have least := fitted.least
  refine ⟨Nat.mul_pos positive (Nat.two_pow_pos _), ?_⟩
  calc mantissa * 2 ^ (exponent + 1074).toNat
      < 2 ^ 53 * 2 ^ (exponent + 1074).toNat :=
        Nat.mul_lt_mul_of_pos_right fitted.short (Nat.two_pow_pos _)
    _ = 2 ^ ((exponent + 1074).toNat + 53) := by ring
    _ ≤ 2 ^ sizeLimit := Nat.pow_le_pow_right (by decide) (by rw [sizeLimit]; omega)

theorem some_lt_eq_compare {left right : Int} (less : left < right) :
    some Ordering.lt = some (compare left right) := by
  rw [Int.compare_eq_lt.mpr less]

theorem some_gt_eq_compare {left right : Int} (more : right < left) :
    some Ordering.gt = some (compare left right) := by
  rw [Int.compare_eq_gt.mpr more]

theorem compare_natCast (left right : Nat) : compare (left : Int) right = compare left right := by
  rw [Int.compare_eq_ite_lt, Nat.compare_eq_ite_lt]
  simp only [Int.ofNat_lt]

theorem compare_neg_natCast (left right : Nat) :
    compare (-(left : Int)) (-(right : Int)) = (compare left right).swap := by
  rcases Nat.lt_trichotomy left right with less | rfl | more
  · rw [Nat.compare_eq_lt.mpr less]
    exact Int.compare_eq_gt.mpr (by omega)
  · rw [Nat.compare_eq_eq.mpr rfl]
    exact Int.compare_eq_eq.mpr rfl
  · rw [Nat.compare_eq_gt.mpr more]
    exact Int.compare_eq_lt.mpr (by omega)

theorem compare_eq_compare_units {left right : UnpackedFloat} (canonical : Canonical left)
    (canonical' : Canonical right) (defined : left ≠ .notANumber) (defined' : right ≠ .notANumber) :
    left.compare right = some (compare (units left) (units right)) := by
  have far : 0 < beyond := Nat.two_pow_pos sizeLimit
  -- Units of finite numbers lie strictly between zero and the bound that stands for infinity, so
  -- only two finite numbers of one sign are compared by their fields.
  cases left with
  | notANumber => exact absurd rfl defined
  | infinity sign =>
      cases right with
      | notANumber => exact absurd rfl defined'
      | infinity sign' =>
          cases sign <;> cases sign'
          · exact congrArg some (Int.compare_eq_eq.mpr rfl).symm
          · exact some_lt_eq_compare (by dsimp only [units, Sign.apply]; omega)
          · exact some_gt_eq_compare (by dsimp only [units, Sign.apply]; omega)
          · exact congrArg some (Int.compare_eq_eq.mpr rfl).symm
      | zero sign' =>
          cases sign
          · exact some_lt_eq_compare (by dsimp only [units, Sign.apply]; omega)
          · exact some_gt_eq_compare (by dsimp only [units, Sign.apply]; omega)
      | finite sign' mantissa' exponent' positive' =>
          obtain ⟨low, high⟩ := canonical'.bounds
          cases sign
          · apply some_lt_eq_compare
            cases sign' <;> dsimp only [units, Sign.apply] <;> omega
          · apply some_gt_eq_compare
            cases sign' <;> dsimp only [units, Sign.apply] <;> omega
  | zero sign =>
      cases right with
      | notANumber => exact absurd rfl defined'
      | infinity sign' =>
          cases sign'
          · exact some_gt_eq_compare (by dsimp only [units, Sign.apply]; omega)
          · exact some_lt_eq_compare (by dsimp only [units, Sign.apply]; omega)
      | zero sign' => exact congrArg some (Int.compare_eq_eq.mpr rfl).symm
      | finite sign' mantissa' exponent' positive' =>
          obtain ⟨low, -⟩ := canonical'.bounds
          cases sign'
          · exact some_gt_eq_compare (by dsimp only [units, Sign.apply]; omega)
          · exact some_lt_eq_compare (by dsimp only [units, Sign.apply]; omega)
  | finite sign mantissa exponent positive =>
      obtain ⟨low, high⟩ := canonical.bounds
      cases right with
      | notANumber => exact absurd rfl defined'
      | infinity sign' =>
          cases sign'
          · cases sign <;> exact some_gt_eq_compare (by dsimp only [units, Sign.apply]; omega)
          · cases sign <;> exact some_lt_eq_compare (by dsimp only [units, Sign.apply]; omega)
      | zero sign' =>
          cases sign
          · exact some_lt_eq_compare (by dsimp only [units, Sign.apply]; omega)
          · exact some_gt_eq_compare (by dsimp only [units, Sign.apply]; omega)
      | finite sign' mantissa' exponent' positive' =>
          obtain ⟨low', -⟩ := canonical'.bounds
          have sized := canonical.1.compare_eq canonical'.1
          cases sign <;> cases sign'
          · dsimp only [UnpackedFloat.compare, units, Sign.apply]
            rw [compare_neg_natCast, sized]
          · exact some_lt_eq_compare (by dsimp only [units, Sign.apply]; omega)
          · exact some_gt_eq_compare (by dsimp only [units, Sign.apply]; omega)
          · dsimp only [UnpackedFloat.compare, units, Sign.apply]
            rw [compare_natCast, sized]

theorem compare_eq_compare_place {left right : Float} (defined : Defined left)
    (defined' : Defined right) :
    left.toModel.unpack.compare right.toModel.unpack = some (compare (place left) (place right)) :=
  compare_eq_compare_units (canonical_unpack _) (canonical_unpack _) defined defined'

theorem lt_iff_compare (left right : Float) : left < right ↔
    (left.toModel.unpack.compare right.toModel.unpack == some .lt) = true :=
  ⟨fun less => of_decide_eq_true less, fun less => decide_eq_true less⟩

theorem le_iff_compare (left right : Float) : left ≤ right ↔
    (left.toModel.unpack.compare right.toModel.unpack).any (·.isLE) = true :=
  ⟨fun less => of_decide_eq_true less, fun less => decide_eq_true less⟩

theorem lt_iff_place_lt {left right : Float} (defined : Defined left) (defined' : Defined right) :
    left < right ↔ place left < place right := by
  rw [lt_iff_compare, compare_eq_compare_place defined defined', ← Int.compare_eq_lt]
  simp

theorem le_iff_place_le {left right : Float} (defined : Defined left) (defined' : Defined right) :
    left ≤ right ↔ place left ≤ place right := by
  rw [le_iff_compare, compare_eq_compare_place defined defined', ← Int.isLE_compare]
  simp

theorem defined_of_lt {left right : Float} (less : left < right) :
    Defined left ∧ Defined right := by
  rw [lt_iff_compare] at less
  constructor
  · intro undefined
    rw [undefined] at less
    cases less
  · intro undefined
    rw [undefined] at less
    generalize left.toModel.unpack = other at less
    cases other <;> cases less

theorem isUndefined_eq_false_iff (value : Float) : isUndefined value = false ↔ Defined value := by
  simp only [isUndefined, Bool.not_eq_false', decide_eq_true_eq]
  constructor
  · intro self undefined
    rw [le_iff_compare, undefined] at self
    cases self
  · intro defined
    exact (le_iff_place_le defined defined).mpr (Int.le_refl _)

end Binary64

end ManeuverRanking
