/-!
The numbers the analysis computes with. `Arithmetic` is what metrics and scores need: the field
operations, a decidable order, powers and literals. `Scalar` adds roots, angles and the floor that
the geometry needs. Every definition of the library is stated over these two classes, so that the
same text runs on binary floating point and is reasoned about over exact numbers.
-/

namespace ManeuverRanking

class Arithmetic (α : Type) extends Add α, Sub α, Mul α, Div α, Neg α, Zero α, One α, LT α, LE α,
    OfScientific α where
  ofInt : Int → α
  pow : α → Nat → α
  decideLt : (left right : α) → Decidable (left < right)
  decideLe : (left right : α) → Decidable (left ≤ right)

instance decidableLess [Arithmetic α] (left right : α) : Decidable (left < right) :=
  Arithmetic.decideLt left right

instance decidableAtMost [Arithmetic α] (left right : α) : Decidable (left ≤ right) :=
  Arithmetic.decideLe left right

class Scalar (α : Type) extends Arithmetic α where
  sqrt : α → α
  sin : α → α
  cos : α → α
  tan : α → α
  /-- The angle of the direction with the given ordinate and abscissa, in that order. -/
  atan2 : α → α → α
  hypot : α → α → α
  pi : α
  floor? : α → Option Int
  /-- Whether an array can be asked to hold so many numbers. -/
  fits : Nat → Bool

export Arithmetic (ofInt)

end ManeuverRanking
