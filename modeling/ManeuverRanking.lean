import ManeuverRanking.Decimal.Rounded
import ManeuverRanking.Logging
import ManeuverRanking.Main
import ManeuverRanking.Proofs.Replay.Feeding
import ManeuverRanking.Proofs.Window.History
import ManeuverRanking.Proofs.Replay.Schedule
import ManeuverRanking.Proofs.Scalar.Units
import ManeuverRanking.Proofs.Scalar.Nearest
import ManeuverRanking.Proofs.Horizon
import ManeuverRanking.Proofs.Loading
import ManeuverRanking.Proofs.Candidate.View
import ManeuverRanking.Proofs.Analysis.Course
import ManeuverRanking.Proofs.Candidate.Scoring
import ManeuverRanking.Proofs.Analysis.Rows
import ManeuverRanking.Proofs.Analysis.Offline
import ManeuverRanking.Proofs.Sorting.Mapping
import ManeuverRanking.Proofs.Delay.Record
import ManeuverRanking.Proofs.Delay.Window
import ManeuverRanking.Proofs.Delay.Snapshot
import ManeuverRanking.Proofs.Delay.Replay
import ManeuverRanking.Proofs.Delay.Material
import ManeuverRanking.Proofs.Delay.Scoring
import ManeuverRanking.Proofs.Delay.Run
import ManeuverRanking.Proofs.Delay.Table
import ManeuverRanking.Proofs.Scalar.Operations
import ManeuverRanking.Proofs.Scalar.Monotone
import ManeuverRanking.Proofs.Horizon.Steady
import ManeuverRanking.Proofs.Candidate.Reach
import ManeuverRanking.Proofs.Analysis.Readiness
import ManeuverRanking.Proofs.Analysis.Lookahead
import ManeuverRanking.Proofs.Analysis.Coverage
import ManeuverRanking.Proofs.Candidate.Order
import ManeuverRanking.Proofs.Analysis.Shape
import ManeuverRanking.Proofs.Candidate.Stages
import ManeuverRanking.Proofs.Snapshot.Sampling
import ManeuverRanking.Proofs.Candidate.Waiting
import ManeuverRanking.Proofs.Scalar.Identity
import ManeuverRanking.Proofs.Candidate.Members
import ManeuverRanking.Proofs.Candidate.Alternatives
import ManeuverRanking.Proofs.Analysis.Memory
import ManeuverRanking.Proofs.Analysis.Summary
import ManeuverRanking.Proofs.Replay.Disorder
import ManeuverRanking.Proofs.Replay.Relapse
import ManeuverRanking.Proofs.Completion
import ManeuverRanking.Proofs.Ensures
import ManeuverRanking.Proofs.Scalar.Exact
import ManeuverRanking.Proofs.Metric.Extraction
import ManeuverRanking.Proofs.Plan.Walk
import ManeuverRanking.Proofs.Path.Reference
import ManeuverRanking.Proofs.Candidate.Failure
import ManeuverRanking.Proofs.Score
import ManeuverRanking.Proofs.Score.Dominance
import ManeuverRanking.Proofs.Score.Lateness
import ManeuverRanking.Proofs.Geometry.Motion
import ManeuverRanking.Proofs.Metric.Frame
import ManeuverRanking.Proofs.Path.Kept
import ManeuverRanking.Proofs.Path.Linearity
import ManeuverRanking.Proofs.Path.Natural
import ManeuverRanking.Proofs.Path.Straight
import ManeuverRanking.Proofs.Path.Lattice
import ManeuverRanking.Proofs.Geometry.Direction
import ManeuverRanking.Proofs.Geometry.Heading
import ManeuverRanking.Proofs.Geometry.Rotation
import ManeuverRanking.Proofs.Geometry.Projection
import ManeuverRanking.Proofs.Path.Frame
import ManeuverRanking.Proofs.Geometry.Unwrapping
import ManeuverRanking.Proofs.Geometry.Interpolation
import ManeuverRanking.Proofs.Plan.Interpolation
import ManeuverRanking.Proofs.Geometry.Polyline
import ManeuverRanking.Proofs.Geometry.Nearest
import ManeuverRanking.Proofs.Plan.Advance
import ManeuverRanking.Proofs.Plan.Anchor
import ManeuverRanking.Proofs.Plan.Resampling
import ManeuverRanking.Proofs.Metric.Horizon
import ManeuverRanking.Proofs.Candidate.Lengths
import ManeuverRanking.Proofs.Horizon.Offsets
import ManeuverRanking.Proofs.Snapshot.Collecting
import ManeuverRanking.Proofs.Snapshot.Eviction
import ManeuverRanking.Proofs.Metric.Collision
import ManeuverRanking.Proofs.Plan.Turning
import ManeuverRanking.Proofs.Plan.Travel
import ManeuverRanking.Proofs.Metric.Jerk
import ManeuverRanking.Proofs.Score.Range
import ManeuverRanking.Proofs.Candidate.Undefined
