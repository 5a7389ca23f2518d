import ManeuverRanking.Criterion
import ManeuverRanking.FileTree
import ManeuverRanking.Setting
import ManeuverRanking.Shortage

/-!
What can go wrong, as data: one constructor for each cause, carrying what the cause is about.
`Fault.message` words those causes that this library words itself.
-/

namespace ManeuverRanking

inductive Fault (α : Type) where
  | undefinedInteger
  | infiniteInteger
  | integerRange (value : Int)
  | infiniteAngle
  | vectorLength (length : Nat)
  | noSpeed
  | unlocatablePosition
  | unpairedCoordinates
  | emptyPath
  | tooFewPathPoints
  | unusableKnots
  | sampleAddresses (count : Nat)
  | progressLength
  | nothingToInterpolate
  | nothingToResample
  | horizonSteps
  | horizonInterval
  | horizonMissing
  | windowSpan
  | outOfOrder (stamp newest : Int)
  | emptyWindow
  | emptyTransformBatch
  | noOdometry (logName : String)
  | elapsedTimes
  | seriesLengths (lengths : List Nat)
  | emptySeries
  | stampRange (stamp : Int)
  | shortHistory (series : String) (held required : Nat)
  | unknownSource (kind : String)
  | scoreBounds (criterion : Criterion) (lower upper : α)
  | distanceUnit
  | noSeed (gap : SeedGap)
  | emptyRanking
  | noSuchRank (rank : Int)
  | timeStep
  | refusedSetting (cause : Fault α)
  | unknownLog (name : String)
  | noSuchLog (position : Int)
  | unreadableLog (name : String)
  | path (path : String) (cause : PathFault)
  | setting (cause : SettingFault)
  | brokenLine
  | noTicks

namespace Fault

def message {α : Type} (wording : Wording α) : Fault α → Option String
  | tooFewPathPoints => some "SplineReferencePath requires at least two distinct points"
  | progressLength => some "Progress must be given for every trajectory point"
  | nothingToResample => some "Cannot resample an empty trajectory"
  | horizonSteps => some "TrajectorySampling: num_poses must be positive!"
  | horizonInterval => some "TrajectorySampling: interval_length must be positive!"
  | horizonMissing => some "SynchronizedSnapshot: step offsets require a trajectory sampling!"
  | windowSpan => some "TimeWindowBuffer: window_span must be non-negative!"
  | outOfOrder stamp newest =>
      some s!"Cannot append record at {stamp} behind newest record at {newest}"
  | emptyWindow => some "Cannot access front of an empty buffer"
  | emptyTransformBatch =>
      some "TransformBatch: cannot infer timestamp of an empty batch!"
  | noOdometry logName => some s!"StreamLog {logName} holds no odometry"
  | elapsedTimes => some "Elapsed time required between all steps"
  | seriesLengths lengths =>
      some ("MetricSeries expects series of equal length, but got \x7b"
        ++ ", ".intercalate (lengths.map toString) ++ "\x7d")
  | emptySeries => some "BehaviorScorer: cannot score an empty metric series"
  | shortHistory series held required =>
      some s!"{series} history holds {held} of {required} required samples"
  | unknownSource kind => some s!"Unknown data source type {kind}"
  | scoreBounds criterion lower upper =>
      some ("BehaviorScorerConfig: " ++ criterion.name ++ " bounds must satisfy min < max, got ["
        ++ wording.number lower ++ ", " ++ wording.number upper ++ "]")
  | distanceUnit => some "BehaviorScorerConfig: travel_distance_normalizer must be positive"
  | noSeed gap => some (gap.message wording.clock)
  | emptyRanking => some "CandidateSet: cannot select from an empty candidate set"
  | timeStep => some "BehaviorAnalyzer: time_step must be positive!"
  | _ => none

end Fault

end ManeuverRanking
