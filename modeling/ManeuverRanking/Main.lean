import ManeuverRanking.Analysis.Report
import ManeuverRanking.DriveLog.Lines

/-!
The command line: ranks the candidates of the drives in the given files and prints the table. A
setting is given as a name and a number with an equals sign between them.
-/

namespace ManeuverRanking

namespace CommandLine

def wording : Wording Float :=
  ⟨Decimal.inMessages.text, toString⟩

structure Request where
  settings : RunSettings Float
  files : List String

def change? (settings : RunSettings Float) (name : String) (value : Float) :
    Option (RunSettings Float) :=
  match name with
  | "window_span" => some { settings with windowSpan := value }
  | "time_step" => some { settings with timeStep := value }
  | "num_poses" => (truncate value).toOption.map fun steps => { settings with steps := steps }
  | "interval_length" => some { settings with interval := value }
  | "wheel_base" => some { settings with wheelBase := value }
  | _ => none

def readArguments (request : Request) : List String → Except String Request
  | [] => .ok request
  | argument :: rest =>
      match argument.splitOn "=" with
      | [name, text] =>
          match Decimal.read? text >>= change? request.settings name with
          | some settings => readArguments { request with settings := settings } rest
          | none => .error argument
      | _ => readArguments { request with files := request.files ++ [argument] } rest

def readDrive (file : String) : IO (DriveLog Float) := do
  let text ← IO.FS.readFile file
  match DriveLines.read (text.splitOn "\n") with
  | .ok log => return log
  | .error fault => throw (IO.userError (file ++ ": " ++ fault.message))

def report (batch : Batch Float) : IO Unit := do
  for notice in batch.notices do
    IO.eprintln (notice.message wording)
  match batch.summary with
  | .ok summary => IO.eprint summary.text
  | .error _ => pure ()
  IO.print batch.table.csv

def run (arguments : List String) : IO UInt32 := do
  match readArguments ⟨.standard, []⟩ arguments with
  | .error argument =>
      IO.eprintln ("Unknown argument: " ++ argument)
      return 2
  | .ok request =>
      let logs ← request.files.mapM readDrive
      match LogArchive.ofDrives logs >>= Batch.ofArchive request.settings with
      | .ok batch =>
          report batch
          return 0
      | .error fault =>
          IO.eprintln ((fault.message wording).getD "The drives cannot be analyzed")
          return 1

end CommandLine

end ManeuverRanking

def main (arguments : List String) : IO UInt32 :=
  ManeuverRanking.CommandLine.run arguments
