import ManeuverRanking.Scalar

/-!
Sums, differences and means of number lists. Rounding makes the order of additions part of a sum:
running totals go from left to right, and `total` adds a long list in eight interleaved lanes,
which equals the plain sum wherever addition is associative and commutative.
-/

namespace ManeuverRanking

variable {α : Type} [Arithmetic α]

def sum (values : List α) : α :=
  values.foldl (· + ·) 0

def differences : List α → List α
  | first :: second :: rest => (second - first) :: differences (second :: rest)
  | _ => []

def runningTotals (start : α) : List α → List α
  | [] => []
  | value :: rest => (start + value) :: runningTotals (start + value) rest

structure Lanes (α : Type) where
  a : α
  b : α
  c : α
  d : α
  e : α
  f : α
  g : α
  h : α

def Lanes.join (lanes : Lanes α) : α :=
  ((lanes.a + lanes.b) + (lanes.c + lanes.d)) + ((lanes.e + lanes.f) + (lanes.g + lanes.h))

def Lanes.total (lanes : Lanes α) : List α → α
  | a :: b :: c :: d :: e :: f :: g :: h :: rest =>
      Lanes.total
        ⟨lanes.a + a, lanes.b + b, lanes.c + c, lanes.d + d,
          lanes.e + e, lanes.f + f, lanes.g + g, lanes.h + h⟩
        rest
  | rest => rest.foldl (· + ·) lanes.join

def blockTotal : List α → α
  | a :: b :: c :: d :: e :: f :: g :: h :: rest => Lanes.total ⟨a, b, c, d, e, f, g, h⟩ rest
  | short => sum short

def blockLimit : Nat := 128

/-- The sum of a list, halved at a multiple of eight until the parts are blocks. The list has at
most `2 ^ depth` entries. -/
def totalWithin : Nat → List α → α
  | 0, values => blockTotal values
  | depth + 1, values =>
      if values.length ≤ blockLimit then blockTotal values
      else
        let half := values.length / 2 / 8 * 8
        totalWithin depth (values.take half) + totalWithin depth (values.drop half)

def total (values : List α) : α :=
  totalWithin values.length values

def mean (values : List α) : α :=
  total values / ofInt values.length

end ManeuverRanking
