import ManeuverRanking.Analysis.Batch
import ManeuverRanking.Decimal.Shortest
import ManeuverRanking.Text.Csv

/-!
The written report of a batch: its table with numbered rows, and its summary.
-/

namespace ManeuverRanking

def Cell.written : Cell Float → String
  | .missing => ""
  | .integer value => toString value
  | .flag value => if value then "True" else "False"
  | .text value => value
  | .number value => if value.isNaN then "" else Decimal.inMessages.text value

def Table.csv (table : Table Float) : String :=
  let rows := table.cells.zipIdx.map fun (cells, number) =>
    Csv.line (toString number :: cells.map Cell.written)
  Csv.line ("" :: table.columns.map Column.name) ++ String.join rows

def rereadCells? (cells : List (Cell Float)) : Option (List (Cell Float)) :=
  let reread (cell : Cell Float) (text : String) : Cell Float :=
    match cell with
    | .text _ => .text text
    | cell => cell
  match Csv.records (Csv.line (cells.map Cell.written)) with
  | [texts] => some (List.zipWith reread cells texts)
  | _ => none

def Table.reread (table : Table Float) : Except (Fault Float) (Table Float) := do
  let rows ← table.cells.mapM fun cells =>
    match rereadCells? cells with
    | some cells => .ok (table.columns.zip cells)
    | none => .error .brokenLine
  return ⟨table.columns, rows⟩

def Summary.text (summary : Summary) : String :=
  s!"Number of evaluated ticks: {summary.evaluated}\n"
    ++ s!"Number of successful ticks: {summary.successful}\n"
    ++ s!"Number of skipped ticks: {summary.skipped}\n"

end ManeuverRanking
