import ManeuverRanking.Geometry.Interpolation
import ManeuverRanking.Geometry.Polyline
import ManeuverRanking.Path.Spline
import ManeuverRanking.Record
import ManeuverRanking.Scalar.Rounding

/-!
Reference paths: two splines over the chord length of a point list, and a dense polyline along them
that positions are projected on. A position is told by the arc length of its foot and its offset to
the left.
-/

namespace ManeuverRanking

variable {α : Type} [Scalar α]

structure ReferencePath (α : Type) where
  xs : Spline α
  ys : Spline α
  lastPlace : α
  outline : List (Vec2 α)
  placeTable : Array (Node α)

/-- A place along a path and the offset from it, positive to the left. -/
structure FrenetPoint (α : Type) where
  along : α
  offset : α

namespace ReferencePath

def leastStep : α := 1e-6

/-- The points that lie apart from the point before them in the list. -/
def distinctAfter (before : Vec2 α) : List (Vec2 α) → List (Vec2 α)
  | [] => []
  | point :: rest =>
      if leastStep < (point.sub before).norm then point :: distinctAfter point rest
      else distinctAfter point rest

def distinct : List (Vec2 α) → List (Vec2 α)
  | [] => []
  | first :: rest => first :: distinctAfter first rest

def stepBetween (start stop : Vec2 α) : α :=
  (stop.sub start).norm

def places (points : List (Vec2 α)) : List α :=
  progressOf (stepLengths stepBetween points)

def evenPlaces (lastPlace : α) (count : Nat) : List α :=
  let step := lastPlace / ofInt (count - 1 : Nat)
  (List.range (count - 1)).map (fun index : Nat => ofInt index * step) ++ [lastPlace]

def sampleCount (lastPlace spacing : α) : Except (Fault α) Nat := do
  let steps ← ceiling (lastPlace / spacing)
  -- At least both ends are samples.
  let count := (max (steps + 1) 2).toNat
  if Scalar.fits α count then return count else throw (.sampleAddresses count)

def throughDistinct (points : List (Vec2 α)) (spacing : α) :
    Except (Fault α) (ReferencePath α) := do
  if points.length < 2 then throw .tooFewPathPoints
  let places := places points
  let lastPlace := places.getLast?.getD 0
  let xs ← Spline.through (List.zipWith Knot.mk places (points.map Vec2.x))
  let ys ← Spline.through (List.zipWith Knot.mk places (points.map Vec2.y))
  let dense := evenPlaces lastPlace (← sampleCount lastPlace spacing)
  let outline := dense.map fun place => (⟨xs.value place, ys.value place⟩ : Vec2 α)
  let progress := progressOf (stepLengths stepBetween outline)
  return ⟨xs, ys, lastPlace, outline, (List.zipWith Node.mk progress dense).toArray⟩

def through (abscissas ordinates : List α) (spacing : α) : Except (Fault α) (ReferencePath α) :=
  if abscissas.length ≠ ordinates.length then .error .unpairedCoordinates
  else
    match List.zipWith Vec2.mk abscissas ordinates with
    | [] => .error .emptyPath
    | points => throughDistinct (distinct points) spacing

def defaultSpacing : α := 0.1

def throughPlan (points : List (PlanPoint α)) (spacing : α) : Except (Fault α) (ReferencePath α) :=
  through (points.map fun point => point.pose.x) (points.map fun point => point.pose.y) spacing

def yaw (path : ReferencePath α) (place : α) : α :=
  Scalar.atan2 (path.ys.derivative place) (path.xs.derivative place)

def cartesian (path : ReferencePath α) (place offset : α) : Vec2 α :=
  let x := path.xs.value place
  let y := path.ys.value place
  if sameAs offset 0 then ⟨x, y⟩
  else
    let yaw := path.yaw place
    ⟨x - offset * Scalar.sin yaw, y + offset * Scalar.cos yaw⟩

def curvature (path : ReferencePath α) (place : α) : α :=
  let dx := path.xs.derivative place
  let dy := path.ys.derivative place
  let squared := dx * dx + dy * dy
  let denominator := squared * Scalar.sqrt squared
  if sameAs denominator 0 then 0
  else
    (dx * path.ys.secondDerivative place - dy * path.xs.secondDerivative place) / denominator

def placeOfProgress (path : ReferencePath α) (progress : α) : α :=
  (interpolate? path.placeTable progress).getD 0

def offsetAt (path : ReferencePath α) (place : α) (position : Vec2 α) : α :=
  let away := position.sub (path.cartesian place 0)
  let yaw := path.yaw place
  signum (Scalar.cos yaw * away.y - Scalar.sin yaw * away.x) * Scalar.hypot away.x away.y

def frenet (path : ReferencePath α) (position : Vec2 α) : Except (Fault α) (FrenetPoint α) := do
  let progress ← projectToPolyline path.outline position
  -- Progress is that of the polyline, places are those of the splines.
  let place := path.placeOfProgress progress
  return ⟨place, path.offsetAt place position⟩

end ReferencePath

end ManeuverRanking
