import ManeuverRanking.Scalar

/-!
Comparisons, choices and clamping. An undefined number compares false with everything, itself
included: `isUndefined` reads that off, and each choice below says what becomes of such a number.
-/

namespace ManeuverRanking

variable {α : Type} [Arithmetic α]

/-- An undefined number is not even at most itself. -/
def isUndefined (value : α) : Bool :=
  !decide (value ≤ value)

/-- A number is finite when it cancels against itself. -/
def isFinite (value : α) : Bool :=
  decide (value - value ≤ value - value)

/-- Equality as far as the order tells: both numbers are at most each other. -/
def sameAs (left right : α) : Bool :=
  decide (left ≤ right) && decide (right ≤ left)

def abs (value : α) : α :=
  if value ≤ 0 then 0 - value else value

def signum (value : α) : α :=
  if value < 0 then -1 else if 0 < value then 1 else if value ≤ 0 then 0 else value

def maximum (left right : α) : α :=
  if right ≤ left ∨ isUndefined left then left else right

def minimum (left right : α) : α :=
  if left ≤ right ∨ isUndefined left then left else right

/-- Clamps to an interval. Crossed bounds give the upper one. -/
def clip (value lower upper : α) : α :=
  minimum (maximum value lower) upper

def firstOrLarger (left right : α) : α :=
  if left < right then right else left

def firstOrSmaller (left right : α) : α :=
  if right < left then right else left

/-- The least of a list, the earliest of equal ones. A later undefined number is passed over. -/
def least (first : α) (rest : List α) : α :=
  rest.foldl firstOrSmaller first

end ManeuverRanking
