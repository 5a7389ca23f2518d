import ManeuverRanking.Geometry.Pose
import ManeuverRanking.Scalar.Order
import ManeuverRanking.Scalar.Series

/-!
Polylines in the plane: progress along them, and the arc length of the point nearest to a position.
-/

namespace ManeuverRanking

structure Vec2 (α : Type) where
  x : α
  y : α
  deriving Repr

namespace Vec2

variable {α : Type} [Scalar α]

@[inline] def sub (left right : Vec2 α) : Vec2 α :=
  ⟨left.x - right.x, left.y - right.y⟩

@[inline] def dot (left right : Vec2 α) : α :=
  left.x * right.x + left.y * right.y

@[inline] def norm (vector : Vec2 α) : α :=
  Scalar.sqrt (vector.dot vector)

@[inline] def sameAs (left right : Vec2 α) : Bool :=
  ManeuverRanking.sameAs left.x right.x && ManeuverRanking.sameAs left.y right.y

end Vec2

namespace Pose

def planarPosition {α : Type} (pose : Pose α) : Vec2 α :=
  ⟨pose.position.x, pose.position.y⟩

end Pose

variable {α : Type} [Scalar α]

def progressOf (distances : List α) : List α :=
  0 :: runningTotals 0 distances

def stepLengths {β : Type} (distance : β → β → α) : List β → List α
  | first :: second :: rest => distance first second :: stepLengths distance (second :: rest)
  | _ => []

def pathProgress (inSpace : Bool) (poses : List (Pose α)) : List α :=
  match poses with
  | [] => []
  | _ =>
    progressOf <| stepLengths
      (fun start stop => let step := stop.position.sub start.position
        if inSpace then step.norm else step.planarNorm)
      poses

structure Segment (α : Type) where
  start : Vec2 α
  stop : Vec2 α

namespace Segment

@[inline] def length (segment : Segment α) : α :=
  (segment.start.sub segment.stop).norm

@[inline] def lengthSquared (segment : Segment α) : α :=
  let way := segment.stop.sub segment.start
  way.dot way

@[inline] def share (segment : Segment α) (position : Vec2 α) : α :=
  (position.sub segment.start).dot (segment.stop.sub segment.start) / segment.lengthSquared

@[inline] def distance (segment : Segment α) (position : Vec2 α) : α :=
  if segment.start.sameAs segment.stop then (position.sub segment.start).norm
  else
    let share := segment.share position
    if share ≤ 0 then (position.sub segment.start).norm
    else if 1 ≤ share then (position.sub segment.stop).norm
    else
      -- Inside it is the height of the triangle over the segment.
      let way := segment.stop.sub segment.start
      let offset := segment.start.sub position
      let cross := (offset.y * way.x - offset.x * way.y) / segment.lengthSquared
      abs cross * Scalar.sqrt segment.lengthSquared

@[inline] def reach (segment : Segment α) (position : Vec2 α) : α :=
  let share :=
    if position.sameAs segment.start then 0
    else if position.sameAs segment.stop then 1
    else segment.share position
  if share ≤ 0 then 0
  else if share ≤ 1 then share * segment.length
  else segment.length

end Segment

structure Nearest (α : Type) where
  distance : α
  arc : α

namespace Nearest

/-- Whether a point takes the place of the best one so far. A strictly nearer one does, and at
first one at any finite distance. A point whose arc length is not a number never does: it lies
behind a point of the line that is not finite. -/
@[inline] def replaces (point : Nearest α) (best : Option (Nearest α)) : Bool :=
  decide (0 ≤ point.arc) &&
    match best with
    | none => ManeuverRanking.isFinite point.distance
    | some best => decide (point.distance < best.distance)

end Nearest

@[inline] def Segment.nearest (segment : Segment α) (arc : α) (position : Vec2 α) : Nearest α :=
  ⟨segment.distance position, arc + segment.reach position⟩

def nearestAlong (position : Vec2 α) (arc : α) (best : Option (Nearest α)) :
    List (Vec2 α) → Option (Nearest α)
  | start :: stop :: rest =>
      let segment : Segment α := ⟨start, stop⟩
      let point := segment.nearest arc position
      -- The first of equally near places stays.
      let better := if point.replaces best then some point else best
      nearestAlong position (arc + segment.length) better (stop :: rest)
  | _ => best

/-- The arc length of the first nearest place on the polyline through some points. There is none
if no segment is at a finite distance, as when a coordinate of the position is not finite. -/
def projectToPolyline (points : List (Vec2 α)) (position : Vec2 α) :
    Except (Fault α) α :=
  match nearestAlong position 0 none points with
  | some nearest => .ok nearest.arc
  | none => .error .unlocatablePosition

end ManeuverRanking
