import ManeuverRanking.Decimal.Read
import ManeuverRanking.DriveLog
import ManeuverRanking.Scalar.Rounding

/-!
Drives written as lines of words. The first word tells what a line holds: `drive` with a name,
`odometry`, `acceleration`, `steering`, `objects`, `plan` and `transforms` for a record, and
`object`, `point` and `transform` for an entry of the record line before it.
-/

namespace ManeuverRanking

namespace DriveLines

inductive LineFault where
  | unknownKind (word : String)
  | misfit (kind : String)
  | stray (kind : String)
  deriving DecidableEq, Repr

def LineFault.message : LineFault → String
  | unknownKind word => "Unknown kind of line: " ++ word
  | misfit kind => "Line does not fit its kind: " ++ kind
  | stray kind => "Entry without a record line: " ++ kind

structure Below where
  log : DriveLog Float
  objects : List (TrackedObject Float)
  points : List (PlanPoint Float)
  transforms : List (FrameTransform Float)

def nothing : Below :=
  ⟨⟨"log", .ofFn fun
    | .transforms => []
    | .odometry => []
    | .objects => []
    | .acceleration => []
    | .steering => []
    | .plan => []⟩, [], [], []⟩

def pose? (x y heading : Float) : Option (Pose Float) :=
  (Pose.planar ⟨x, y, 0⟩ heading).toOption

def Below.put (below : Below) (stream : Stream) (record : Payload Float stream) : Below :=
  let records := below.log.records
  { below with log := { below.log with
      records := records.set stream (record :: records.get stream) } }

def readWords? (below : Below) (kind : String) (words : List String) : Option Below := do
  match kind, words with
  | "drive", [name] => return { below with log := { below.log with name := name } }
  | "transforms", [] =>
      return { below with transforms := [] }.put .transforms ⟨below.transforms⟩
  | "objects", [stamp] =>
      return { below with objects := [] }.put .objects ⟨← stamp.toInt?, below.objects⟩
  | "plan", [stamp] =>
      return { below with points := [] }.put .plan ⟨← stamp.toInt?, below.points⟩
  | "transform", stamp :: frame :: child :: numbers =>
      let [x, y, heading] ← numbers.mapM Decimal.read? | none
      let transform := ⟨← stamp.toInt?, frame, child, ← pose? x y heading⟩
      return { below with transforms := transform :: below.transforms }
  | "object", identity :: numbers =>
      let [x, y, heading, vx, vy, vz] ← numbers.mapM Decimal.read? | none
      let object := ⟨identity, ← pose? x y heading, [vx, vy, vz]⟩
      return { below with objects := object :: below.objects }
  | "point", numbers =>
      let [x, y, heading, speed, acceleration, angle, time] ← numbers.mapM Decimal.read? | none
      let point := ⟨← pose? x y heading, speed, acceleration, angle, time⟩
      return { below with points := point :: below.points }
  | "odometry", stamp :: numbers =>
      let [x, y, heading, vx, vy, vz] ← numbers.mapM Decimal.read? | none
      return below.put .odometry ⟨← stamp.toInt?, ← pose? x y heading, [vx, vy, vz]⟩
  | "acceleration", stamp :: numbers =>
      let [longitudinal, lateral] ← numbers.mapM Decimal.read? | none
      return below.put .acceleration ⟨← stamp.toInt?, longitudinal, lateral⟩
  | "steering", stamp :: numbers =>
      let [angle] ← numbers.mapM Decimal.read? | none
      return below.put .steering ⟨← stamp.toInt?, angle⟩
  | _, _ => none

def kinds : List String :=
  ["drive", "transforms", "objects", "plan", "transform", "object", "point", "odometry",
    "acceleration", "steering"]

def wordsOf (text : String) : List String :=
  ((text.split fun letter : Char => letter.isWhitespace).toList.map String.Slice.copy).filter
    fun word => !word.isEmpty

def readLines : List String → Except LineFault Below
  | [] => .ok nothing
  | line :: rest => do
      let below ← readLines rest
      match wordsOf line with
      | [] => return below
      | kind :: words =>
          match readWords? below kind words with
          | some below => return below
          | none => throw (if kinds.contains kind then .misfit kind else .unknownKind kind)

def read (lines : List String) : Except LineFault (DriveLog Float) := do
  let below ← readLines lines
  if !below.objects.isEmpty then throw (.stray "object")
  if !below.points.isEmpty then throw (.stray "point")
  if !below.transforms.isEmpty then throw (.stray "transform")
  return below.log

end DriveLines

end ManeuverRanking
