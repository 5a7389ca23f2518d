import ManeuverRanking.Decimal.Shortest

/-!
Decimal text of limited precision: so many significant digits, and never finer than a given power of
ten. The exact value is rounded, ties to the even neighbour.
-/

namespace ManeuverRanking

namespace Decimal

structure Precision where
  significant : Nat
  finest : Int

def Precision.round (precision : Precision) (exact : Fraction) : Digits :=
  let grid := max (exact.decade + 1 - precision.significant) precision.finest
  let below := exact.floorAt grid
  if exact.nearerBelow below then below else ⟨below.number + 1, grid⟩

def Digits.scientific (decimal : Digits) : String :=
  let digits := (toString decimal.number).toList
  let mantissa := match dropTrailingZeros digits with
    | [first] => [first]
    | first :: rest => first :: '.' :: rest
    | [] => []
  String.ofList mantissa ++ "e" ++ toString (decimal.exponent + digits.length - 1)

def Precision.text (precision : Precision) (value : Float) : String :=
  match Binary64.parts? value with
  | none => inMessages.text value
  | some parts =>
      let exact := Fraction.scaled parts.significand 2 parts.exponent
      let decimal := precision.round exact
      if parts.significand = 0 ∨ decimal.number = 0 then "0"
      else (if parts.negative then "-" else "") ++ decimal.scientific

end Decimal

end ManeuverRanking
