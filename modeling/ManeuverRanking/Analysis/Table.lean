import ManeuverRanking.Analysis.Analyzer
import ManeuverRanking.Analysis.TimeKind

/-!
Tables of ranked candidates: one row for each candidate of a successful tick, one row without
scores for a skipped tick. Columns stand in the order in which the rows first use them.
-/

namespace ManeuverRanking

inductive Column where
  | timestamp
  | stale
  | rank
  | origin
  | generation
  | score (criterion : Criterion)
  | total
  | meanLateralAcceleration
  | meanJerk
  | leastTimeToCollision
  | travelDistance
  | valid
  | logName
  deriving DecidableEq, Repr

def Column.name : Column → String
  | timestamp => "timestamp"
  | stale => "stale"
  | rank => "rank"
  | origin => "tag"
  | generation => "generation_index"
  | score criterion => criterion.name
  | total => "total"
  | meanLateralAcceleration => "mean_lateral_accel"
  | meanJerk => "mean_longitudinal_jerk"
  | leastTimeToCollision => "min_ttc"
  | travelDistance => "travel_distance"
  | valid => "valid"
  | logName => "log_name"

inductive Cell (α : Type) where
  | missing
  | integer (value : Int)
  | flag (value : Bool)
  | text (value : String)
  | number (value : α)

@[reducible] def Row (α : Type) : Type :=
  List (Column × Cell α)

namespace Row

variable {α : Type}

def cell (row : Row α) (column : Column) : Cell α :=
  ((row.find? fun entry => entry.1 = column).map Prod.snd).getD .missing

def holdTime [Scalar α] (kind : TimeKind) (row : Row α) : Row α :=
  row.map fun
    | (.timestamp, .integer time) => (.timestamp, .integer (kind.hold α time))
    | entry => entry

end Row

structure Table (α : Type) where
  columns : List Column
  rows : List (Row α)

namespace Table

variable {α : Type}

def joinColumns (columns : List Column) (row : Row α) : List Column :=
  columns ++ ((row.map Prod.fst).filter fun column => !columns.contains column)

def ofRows (rows : List (Row α)) : Table α :=
  ⟨rows.foldl joinColumns [], rows⟩

def cells (table : Table α) : List (List (Cell α)) :=
  table.rows.map fun row => table.columns.map row.cell

end Table

variable {α : Type} [Scalar α]

def seriesMinimum (series : List α) : α :=
  match series with
  | [] => noCollision
  | first :: rest => rest.foldl minimum first

def scoreCells (scores : Scores α) : Row α :=
  (Criterion.all.map fun criterion => (.score criterion, .number (scores.each.get criterion)))
    ++ [(.total, .number scores.total)]

def Analysis.row (analysis : Analysis α) (scored : ScoredCandidate α) (rank : Nat) : Row α :=
  [(.timestamp, .integer analysis.clock), (.stale, .flag analysis.stale),
    (.rank, .integer rank), (.origin, .text scored.candidate.origin.name),
    (.generation, .integer scored.candidate.generation)]
  ++ scoreCells scored.scores
  ++ [(.meanLateralAcceleration, .number (mean scored.metrics.lateralAcceleration)),
    (.meanJerk, .number (mean scored.metrics.longitudinalJerk)),
    (.leastTimeToCollision, .number (seriesMinimum scored.metrics.timeToCollision)),
    (.travelDistance, .number (scored.metrics.travelDistance.getLast?.getD 0))]

def Analysis.rows (analysis : Analysis α) : List (Row α) :=
  analysis.ranking.ranked.zipIdx.map fun (scored, rank) => analysis.row scored rank

def skippedRow (clock : Int) : Row α :=
  (Criterion.all.map fun criterion => (Column.score criterion, Cell.missing))
    ++ [(.total, .missing), (.timestamp, .integer clock)]

end ManeuverRanking
