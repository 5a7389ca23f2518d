import ManeuverRanking.Scalar

/-!
Binary floating point of double width as the numbers of a run. A finite number is a signed integer
times a power of two; the floor is taken on that exact value.
-/

namespace ManeuverRanking

namespace Binary64

structure Parts where
  negative : Bool
  significand : Nat
  exponent : Int
  deriving DecidableEq, Repr

def signBit : Nat := 1 <<< 63

def fractionSize : Nat := 1 <<< 52

def specialField : Nat := 2047

def parts? (value : Float) : Option Parts :=
  let bits := value.toBits.toNat
  let negative := decide (signBit ≤ bits)
  let field := bits % signBit / fractionSize
  let fraction := bits % fractionSize
  if field = specialField then none
  else if field = 0 then some ⟨negative, fraction, -1074⟩
  else some ⟨negative, fractionSize + fraction, (field : Int) - 1075⟩

def Parts.floor (parts : Parts) : Int :=
  let signed : Int := if parts.negative then -(parts.significand : Int) else parts.significand
  match parts.exponent with
  | .ofNat up => signed * Nat.pow 2 up
  | .negSucc down => signed.fdiv (Nat.pow 2 (down + 1))

def floor? (value : Float) : Option Int :=
  (parts? value).map Parts.floor

/-- The length of a planar vector, scaled by its longer component so that no square overflows.
An infinite component wins over an undefined one. -/
def hypot (left right : Float) : Float :=
  let first := left.abs
  let second := right.abs
  if first.isInf || second.isInf then 1.0 / 0.0
  else
    let longer := if first < second then second else first
    let shorter := if first < second then first else second
    if longer == 0.0 then shorter
    else
      let ratio := shorter / longer
      longer * (1.0 + ratio * ratio).sqrt

def unaddressed : Nat := 1 <<< 60

def pi : Float := 3.141592653589793

end Binary64

instance : Arithmetic Float where
  ofInt := Float.ofInt
  pow base exponent := Float.pow base (Float.ofNat exponent)
  decideLt := Float.decLt
  decideLe := Float.decLe

instance : Scalar Float where
  sqrt := Float.sqrt
  sin := Float.sin
  cos := Float.cos
  tan := Float.tan
  atan2 := Float.atan2
  hypot := Binary64.hypot
  pi := Binary64.pi
  floor? := Binary64.floor?
  fits count := decide (count < Binary64.unaddressed)

end ManeuverRanking
