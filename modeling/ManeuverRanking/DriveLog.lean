import ManeuverRanking.Record

/-!
The recorded input streams of one drive. The clock of a drive runs from its first odometry record
to its last one.
-/

namespace ManeuverRanking

structure DriveLog (α : Type) where
  name : String
  records : PerStream fun stream => List (Payload α stream)

namespace DriveLog

variable {α : Type}

def entries (log : DriveLog α) : List ((stream : Stream) × Payload α stream) :=
  Stream.all.flatMap fun stream => (log.records.get stream).map fun record => ⟨stream, record⟩

def startTime (log : DriveLog α) : Except (Fault α) Int :=
  match log.records.odometry.head? with
  | some first => .ok first.stamp
  | none => .error (.noOdometry log.name)

def endTime (log : DriveLog α) : Except (Fault α) Int :=
  match log.records.odometry.getLast? with
  | some last => .ok last.stamp
  | none => .error (.noOdometry log.name)

end DriveLog

end ManeuverRanking
