import ManeuverRanking.Setting.Lookup
import ManeuverRanking.Text.Letters

/-!
The set-up of the root logger from a configuration: the level of a name, and the format of every
handler. There is at least one handler.
-/

namespace ManeuverRanking

namespace Logging

inductive SetupFault where
  | setting (cause : SettingFault)
  | unknownLevel (name : String)
  | textAsLevel
  | tableAsLevel
  | formatKind
  | noField (format : String)
  deriving DecidableEq, Repr

inductive Meaning where
  | level (number : Nat)
  | text
  | table
  deriving DecidableEq, Repr

def meaning? (name : String) : Option Meaning :=
  match String.ofList (name.toList.flatMap Text.capitals) with
  | "NOTSET" => some (.level 0)
  | "DEBUG" => some (.level 10)
  | "INFO" => some (.level 20)
  | "WARN" => some (.level 30)
  | "WARNING" => some (.level 30)
  | "ERROR" => some (.level 40)
  | "CRITICAL" => some (.level 50)
  | "FATAL" => some (.level 50)
  | "BASIC_FORMAT" => some .text
  | "_STYLES" => some .table
  | _ => none

def isFlag (letter : Char) : Bool :=
  "#0+ -".toList.contains letter

def isConversion (letter : Char) : Bool :=
  "diouxefgcrsa%ıſİ".toList.contains letter.toLower

def dropWidth : List Char → List Char
  | '*' :: rest => rest
  | text => text.dropWhile Text.isDecimalDigit

def dropPrecision : List Char → List Char
  | '.' :: '*' :: rest => rest
  | '.' :: digit :: rest =>
      if Text.isDecimalDigit digit then rest.dropWhile Text.isDecimalDigit else '.' :: digit :: rest
  | text => text

def startsField (text : List Char) : Bool :=
  match text.dropWhile Text.isWordCharacter with
  | ')' :: rest =>
      Text.isWordCharacter (text.headD ')')
        && ((dropPrecision (dropWidth (rest.dropWhile isFlag))).head?.any isConversion)
  | _ => false

def hasField : List Char → Bool
  | [] => false
  | letter :: rest =>
      (letter = '%' && rest.head? = some '(' && startsField (rest.drop 1)) || hasField rest

def standardFormat : String :=
  "%(asctime)s %(levelname)-2s \x7b%(pathname)s:%(lineno)d\x7d  %(message)s"

structure Handler where
  level : Nat
  format : String
  deriving DecidableEq, Repr

structure Setup where
  level : Nat
  handlers : List Handler
  deriving DecidableEq, Repr

def formatOf (setting : Setting) : Except SetupFault String :=
  if setting.isBlank then .ok standardFormat
  else
    match setting with
    | .text format => .ok format
    | _ => .error .formatKind

/-- Sets the level and format of all handlers present, as a configuration gives them. The name of
the level is looked up before the format, and what both stand for is examined in the same order. -/
def setup (configuration : Setting) (present : Nat) : Except SetupFault Setup := do
  let given (name : String) (standard : Setting) : Except SetupFault Setting :=
    ((configuration.get? name).map (Option.getD · standard)).mapError .setting
  (Template.check configuration).mapError .setting
  let name := (← given "logger_level" (.text "info")).shown
  let some meaning := meaning? name | throw (.unknownLevel name)
  let format ← given "logger_format_string" .nothing
  match meaning with
  | .text => throw .textAsLevel
  | .table => throw .tableAsLevel
  | .level level =>
      let format ← formatOf format
      if hasField format.toList then
        return ⟨level, List.replicate (max present 1) ⟨level, format⟩⟩
      else throw (.noField format)

end Logging

end ManeuverRanking
