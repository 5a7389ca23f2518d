import ManeuverRanking.Scalar.Binary64

/-!
Reading decimal literals: the binary number nearest to the decimal.
-/

namespace ManeuverRanking

namespace Decimal

def readDigits (text : List Char) : List Char × List Char :=
  (text.takeWhile Char.isDigit, text.dropWhile Char.isDigit)

def naturalOf (digits : List Char) : Nat :=
  digits.foldl (fun value digit => 10 * value + (digit.toNat - '0'.toNat)) 0

def readExponent? (text : List Char) : Option Int :=
  let magnitude (digits : List Char) : Option Int :=
    if digits.isEmpty || !digits.all Char.isDigit then none else some (naturalOf digits)
  match text with
  | [] => some 0
  | mark :: rest =>
      if mark = 'e' ∨ mark = 'E' then
        match rest with
        | '-' :: digits => (magnitude digits).map fun size => -size
        | '+' :: digits => magnitude digits
        | digits => magnitude digits
      else none

def rangeLimit : Int := 400

def readUnsigned? (text : List Char) : Option Float :=
  let (whole, rest) := readDigits text
  let (fraction, rest) := match rest with
    | '.' :: tail => readDigits tail
    | _ => ([], rest)
  if whole.isEmpty && fraction.isEmpty then none
  else
    (readExponent? rest).map fun exponent =>
      let digits := whole ++ fraction
      let scale : Int := exponent - (fraction.length : Int)
      let scale := max (-(rangeLimit + digits.length)) (min scale rangeLimit)
      Float.ofScientific (naturalOf digits) (decide (scale < 0)) scale.natAbs

def read? (text : String) : Option Float :=
  match text with
  | "nan" => some (0.0 / 0.0)
  | "inf" => some (1.0 / 0.0)
  | "-inf" => some (-1.0 / 0.0)
  | _ =>
    match text.toList with
    | '-' :: digits => (readUnsigned? digits).map fun value => -value
    | digits => readUnsigned? digits

end Decimal

end ManeuverRanking
