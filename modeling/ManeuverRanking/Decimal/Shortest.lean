import ManeuverRanking.Scalar.Binary64

/-!
The shortest decimal text that reads back as the same binary number. `Shortest.digits?` finds the
decimal; `Layout` holds the decisions on how it is written.
-/

namespace ManeuverRanking

namespace Decimal

structure Digits where
  number : Nat
  exponent : Int
  deriving DecidableEq, Repr

structure Fraction where
  numerator : Nat
  denominator : Nat

def Fraction.scaled (number : Nat) (base : Nat) : Int → Fraction
  | .ofNat up => ⟨number * base.pow up, 1⟩
  | .negSucc down => ⟨number, base.pow (down + 1)⟩

structure Interval where
  value : Fraction
  lower : Fraction
  upper : Fraction
  closed : Bool

/-- Half a step to each neighbour; below a power of two the step is half as wide. A tie rounds to
the even significand, so the bounds belong to even ones. -/
def Interval.ofParts (parts : Binary64.Parts) : Interval :=
  let narrow := parts.significand = Binary64.fractionSize ∧ -1074 < parts.exponent
  let below := if narrow then 1 else 2
  { value := .scaled (4 * parts.significand) 2 (parts.exponent - 2)
    lower := .scaled (4 * parts.significand - below) 2 (parts.exponent - 2)
    upper := .scaled (4 * parts.significand + 2) 2 (parts.exponent - 2)
    closed := parts.significand % 2 = 0 }

def Interval.holds (interval : Interval) (decimal : Digits) : Bool :=
  let number := Fraction.scaled decimal.number 10 decimal.exponent
  let atLeast := interval.lower.numerator * number.denominator
  let atLeastFor := number.numerator * interval.lower.denominator
  let atMost := interval.upper.numerator * number.denominator
  let atMostFor := number.numerator * interval.upper.denominator
  if interval.closed then atLeast ≤ atLeastFor && atMostFor ≤ atMost
  else atLeast < atLeastFor && atMostFor < atMost

def Fraction.decade (fraction : Fraction) : Int :=
  let guess : Int :=
    ((toString fraction.numerator).length : Int) - ((toString fraction.denominator).length : Int)
  let power := Fraction.scaled 1 10 guess
  if power.numerator * fraction.denominator ≤ fraction.numerator * power.denominator then guess
  else guess - 1

def Fraction.floorAt (fraction : Fraction) (exponent : Int) : Digits :=
  let unit := Fraction.scaled 1 10 exponent
  ⟨fraction.numerator * unit.denominator / (fraction.denominator * unit.numerator), exponent⟩

def Fraction.nearerBelow (fraction : Fraction) (below : Digits) : Bool :=
  let unit := Fraction.scaled 1 10 below.exponent
  let denominator := fraction.denominator * unit.numerator
  let beyond := fraction.numerator * unit.denominator - below.number * denominator
  2 * beyond < denominator || (2 * beyond = denominator && below.number % 2 = 0)

def Interval.pick? (interval : Interval) (exponent : Int) : Option Digits :=
  let below := interval.value.floorAt exponent
  let above : Digits := ⟨below.number + 1, exponent⟩
  match interval.holds below, interval.holds above with
  | true, true => some (if interval.value.nearerBelow below then below else above)
  | true, false => some below
  | false, true => some above
  | false, false => none

def Interval.shortest? (interval : Interval) : Option Digits :=
  -- The coarsest grid with a decimal in the interval wins; seventeen digits always suffice.
  let decade := interval.value.decade
  (List.range 17).findSome? fun finer : Nat => interval.pick? (decade - (finer : Int))

def digits? (parts : Binary64.Parts) : Option Digits :=
  if parts.significand = 0 then none else (Interval.ofParts parts).shortest?

structure Layout where
  leastPositional : Int
  mostPositional : Int
  wholeTail : String
  leastExponentDigits : Nat
  undefined : String
  infinite : String

def dropTrailingZeros (digits : List Char) : List Char :=
  (digits.reverse.dropWhile (· = '0')).reverse

def zeros (count : Nat) : List Char :=
  List.replicate count '0'

def padLeft (width : Nat) (digits : List Char) : List Char :=
  zeros (width - digits.length) ++ digits

def Layout.write (layout : Layout) (digits : List Char) (decade : Int) : String :=
  if layout.leastPositional ≤ decade ∧ decade ≤ layout.mostPositional then
    if decade < 0 then String.ofList ("0.".toList ++ zeros (-decade - 1).toNat ++ digits)
    else
      let whole := decade.toNat + 1
      if digits.length ≤ whole then
        String.ofList (digits ++ zeros (whole - digits.length)) ++ layout.wholeTail
      else String.ofList (digits.take whole ++ '.' :: digits.drop whole)
  else
    let mantissa := match digits with
      | first :: [] => [first]
      | first :: rest => first :: '.' :: rest
      | [] => []
    let magnitude := padLeft layout.leastExponentDigits (toString decade.natAbs).toList
    String.ofList (mantissa ++ 'e' :: (if decade < 0 then '-' else '+') :: magnitude)

def Layout.text (layout : Layout) (value : Float) : String :=
  match Binary64.parts? value with
  | none =>
    if value.isNaN then layout.undefined
    else if value < 0.0 then "-" ++ layout.infinite
    else layout.infinite
  | some parts =>
    let sign := if parts.negative then "-" else ""
    match digits? parts with
    | none => sign ++ layout.write ['0'] 0
    | some decimal =>
      let digits := (toString decimal.number).toList
      let decade := decimal.exponent + digits.length - 1
      sign ++ layout.write (dropTrailingZeros digits) decade

def inMessages : Layout where
  leastPositional := -4
  mostPositional := 15
  wholeTail := ".0"
  leastExponentDigits := 2
  undefined := "nan"
  infinite := "inf"

end Decimal

end ManeuverRanking
