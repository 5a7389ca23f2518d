import ManeuverRanking.Bisection
import ManeuverRanking.Scalar.Order

/-!
Piecewise linear interpolation in a table of abscissas and ordinates, constant beyond both ends.
The search for a query finds the last abscissa at or before it if the abscissas ascend; where they
do not, the answer is told by the nodes that the search looks at.
-/

namespace ManeuverRanking

variable {α : Type} [Arithmetic α]

structure Node (α : Type) where
  abscissa : α
  ordinate : α

/-- The line through two nodes. Where it is undefined it is tried from the other node, and between
equal ordinates it is constant. -/
def Node.line (left right : Node α) (query : α) : α :=
  let slope := (right.ordinate - left.ordinate) / (right.abscissa - left.abscissa)
  let fromLeft := slope * (query - left.abscissa) + left.ordinate
  if isUndefined fromLeft then
    let fromRight := slope * (query - right.abscissa) + right.ordinate
    if isUndefined fromRight ∧ sameAs left.ordinate right.ordinate then left.ordinate else fromRight
  else fromLeft

def reachedAt (nodes : Array (Node α)) (query : α) (position : Nat) : Bool :=
  nodes[position]?.any fun node => decide (node.abscissa ≤ query)

def behindAt (nodes : Array (Node α)) (query : α) (position : Nat) : Bool :=
  nodes[position]?.any fun node => decide (query < node.abscissa)

/-- The position of the last node at or before a query that is at least the first abscissa. Up to
four nodes are walked from the start. Of more nodes the first three steps are tried, then the range
up to the ninth step or the end is halved. -/
def lastReached (nodes : Array (Node α)) (query : α) : Nat :=
  if nodes.size ≤ 4 then
    ((nodes.toList.drop 1).takeWhile fun node => decide (node.abscissa ≤ query)).length
  else if behindAt nodes query 1 then 0
  else if behindAt nodes query 2 then 1
  else if behindAt nodes query 3 then 2
  else
    let high := if 10 < nodes.size ∧ behindAt nodes query 9 then 9 else nodes.size
    partitionPoint (reachedAt nodes query) 3 high - 1

def valueFrom (nodes : Array (Node α)) (query : α) (position : Nat) : Option α :=
  match nodes[position]?, nodes[position + 1]? with
  | some node, some next =>
      some (if sameAs node.abscissa query then node.ordinate else node.line next query)
  | some node, none => some node.ordinate
  | none, _ => none

def interpolate? (nodes : Array (Node α)) (query : α) : Option α :=
  match nodes[0]?, nodes.back? with
  | some first, some last =>
      -- The order of these tests tells where the abscissas do not ascend.
      if isUndefined query then some query
      else if last.abscissa < query then some last.ordinate
      else if query < first.abscissa then some first.ordinate
      else valueFrom nodes query (lastReached nodes query)
  | _, _ => none

end ManeuverRanking
