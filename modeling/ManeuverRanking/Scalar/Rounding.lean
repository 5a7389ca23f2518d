import ManeuverRanking.Fault
import ManeuverRanking.Scalar.Order

/-!
Integers from numbers. All roundings come from the floor; a number without a floor has no integer
value at all, and the fault says whether it is undefined or infinite. `exceedsInt` and `belowInt`
compare with an integer of any size exactly.
-/

namespace ManeuverRanking

variable {α : Type} [Scalar α]

def noInteger (value : α) : Fault α :=
  if isUndefined value then .undefinedInteger else .infiniteInteger

def nearest (value : Int) : Except (Fault α) α :=
  let number : α := ofInt value
  if isFinite number then .ok number else .error (.integerRange value)

def floor (value : α) : Except (Fault α) Int :=
  match Scalar.floor? value with
  | some below => .ok below
  | none => .error (noInteger value)

def ceiling (value : α) : Except (Fault α) Int := do
  let below ← floor value
  return if ofInt below < value then below + 1 else below

def truncate (value : α) : Except (Fault α) Int :=
  if value < 0 then ceiling value else floor value

def roundEven (value : α) : Except (Fault α) Int := do
  let below ← floor value
  let beyond := value - ofInt below
  return if beyond < 0.5 then below
    else if 0.5 < beyond then below + 1
    else if below % 2 = 0 then below else below + 1

def exceedsInt (value : α) (bound : Int) : Bool :=
  match Scalar.floor? value with
  | some below => decide (bound < below) || (decide (bound = below) && decide (ofInt below < value))
  | none => decide (0 < value)

def belowInt (value : α) (bound : Int) : Bool :=
  match Scalar.floor? value with
  | some below => decide (below < bound)
  | none => decide (value < 0)

def remainder (value period : α) : α :=
  match Scalar.floor? (value / period) with
  | some turns => value - period * ofInt turns
  | none => value - value

end ManeuverRanking
