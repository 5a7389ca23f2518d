import ManeuverRanking.Decimal.Shortest
import ManeuverRanking.Setting.Template

/-!
Looking settings up. A text that is one reference stands for the setting it leads to, of whatever
kind; in any other text the references are replaced by the texts of their settings.
-/

namespace ManeuverRanking

namespace Setting

def quotedLetter (quote letter : Char) : String :=
  if letter = quote || letter = '\\' then "\\" ++ letter.toString
  else
    match letter with
    | '\n' => "\\n"
    | '\r' => "\\r"
    | '\t' => "\\t"
    | _ =>
        if letter.toNat < 32 || letter.toNat = 127 then
          let digits := String.ofList (Nat.toDigits 16 letter.toNat)
          "\\x" ++ (if digits.length = 1 then "0" ++ digits else digits)
        else letter.toString

def quoted (text : String) : String :=
  let quote := if text.contains '\'' && !text.contains '"' then '"' else '\''
  let letters := text.toList.map (quotedLetter quote)
  quote.toString ++ String.join letters ++ quote.toString

mutual

def listed : Setting → String
  | .nothing => "None"
  | .truth value => if value then "True" else "False"
  | .whole value => toString value
  | .decimal value => Decimal.inMessages.text value
  | .text value => quoted value
  | .list entries => "[" ++ ", ".intercalate (listedOfList entries) ++ "]"
  | .table entries => "\x7b" ++ ", ".intercalate (listedOfTable entries) ++ "\x7d"

def listedOfList : List Setting → List String
  | [] => []
  | entry :: rest => listed entry :: listedOfList rest

def listedOfTable : List (String × Setting) → List String
  | [] => []
  | (name, entry) :: rest => (quoted name ++ ": " ++ listed entry) :: listedOfTable rest

end

def shown : Setting → String
  | .text value => value
  | setting => setting.listed

end Setting

structure Site where
  way : List String
  setting : Setting

namespace Site

def entry (site : Site) (name : String) : Except SettingFault Site := do
  let found ← match site.setting with
    | .table entries => pure (entries.lookup name)
    | .list entries =>
        match name.toInt? with
        | some position => pure (if position < 0 then none else entries[position.toNat]?)
        | none => throw .unresolved
    | _ => throw .unresolved
  match found with
  | some (.text value) =>
      if value = Setting.undecided then throw (.missingValue name)
      else return ⟨site.way ++ [name], .text value⟩
  | some setting => return ⟨site.way ++ [name], setting⟩
  | none => throw (.missing name)

def descend (site : Site) : List String → Except SettingFault Site
  | [] => .ok site
  | name :: rest => do descend (← site.entry name) rest

/-- The setting that the points and names of a reference lead to from a text. The value at every
step is settled. A reference to something around the text would lead back to it. -/
def refer (root : Setting) (settle : Site → Except SettingFault Site) (text : Site)
    (reference : String) : Except SettingFault Site := do
  let letters := reference.toList.filter (· ≠ ']')
  let points := (letters.takeWhile (· = '.')).length
  let names := (letters.dropWhile (· = '.')).map fun letter => if letter = '[' then '.' else letter
  let level := text.way.dropLast
  if level.length + 1 < points then throw (.missing reference)
  let above := if points = 0 then [] else level.take (level.length + 1 - points)
  let start ← descend ⟨[], root⟩ above
  let target ← ((String.ofList names).splitOn ".").foldlM
    (fun site name => do settle (← site.entry name)) start
  if target.way.isPrefixOf level then throw .unresolved
  return target

end Site

namespace Template

/-- What a source other than the settings gives. Variables of the environment are taken as not set,
so that only the value behind a comma can stand in for one. -/
def fromOutside (source argument : String) : Except SettingFault Setting :=
  if source = "oc.env" then
    match (argument.splitOn ",").map fun part => part.trimAscii.toString with
    | [_, "null"] => .ok .nothing
    | [_, standard] => .ok (.text standard)
    | _ => .error .unresolved
  else .error (.unknownSource source)

mutual

def follow (root : Setting) (settle : Site → Except SettingFault Site) (text : Site) :
    Reference → Except SettingFault Site
  | .setting points keys => do
      let names ← keyNames root settle text keys
      let points := String.ofList (List.replicate points '.')
      Site.refer root settle text (points ++ ".".intercalate names)
  | .outside source argument => do return ⟨text.way, ← fromOutside source argument⟩

def keyName (root : Setting) (settle : Site → Except SettingFault Site) (text : Site) :
    Key → Except SettingFault String
  | .name name => .ok name
  | .looked reference => do
      match (← follow root settle text reference).setting with
      | .text name => return name
      | _ => throw .unresolved

def keyNames (root : Setting) (settle : Site → Except SettingFault Site) (text : Site) :
    List Key → Except SettingFault (List String)
  | [] => .ok []
  | key :: rest => do
      let name ← keyName root settle text key
      return name :: (← keyNames root settle text rest)

end

def partText (root : Setting) (settle : Site → Except SettingFault Site) (text : Site) :
    TextPart → Except SettingFault String
  | .plain part => .ok part
  | .reference reference => do
      return (← follow root settle text reference).setting.shown

end Template

namespace Site

/-- The setting that a setting stands for, with no more texts to look up on the way than a limit.
As many as there are texts suffice, unless one leads back to itself. -/
def settle (root : Setting) : Nat → Site → Except SettingFault Site
  | limit, ⟨way, .text value⟩ =>
      if Template.isPlain value.toList then .ok ⟨way, .text value⟩
      else
        match limit with
        | 0 => .error .unresolved
        | limit + 1 => do
            let text : Site := ⟨way, .text value⟩
            match ← Template.read value with
            | [.reference reference] => Template.follow root (settle root limit) text reference
            | parts =>
                let texts ← parts.mapM (Template.partText root (settle root limit) text)
                return ⟨way, .text (String.join texts)⟩
  | _, site => .ok site

end Site

namespace Setting

def valueAt (root : Setting) (way : List String) (setting : Setting) :
    Except SettingFault Setting := do
  return (← Site.settle root root.texts.length ⟨way, setting⟩).setting

def under? (root : Setting) (name : String) : Option Setting :=
  match root with
  | table entries => entries.lookup name
  | _ => none

def isUndecided : Setting → Bool
  | text value => value = undecided
  | _ => false

def get? (root : Setting) (name : String) : Except SettingFault (Option Setting) :=
  match root.under? name with
  | none => .ok none
  | some setting =>
      if setting.isUndecided then .ok none else (root.valueAt [name] setting).map some

def require (root : Setting) (way : List String) (setting : Setting) :
    Except SettingFault Setting :=
  if setting.isUndecided then .error .undecided else root.valueAt way setting

def textsUnder? (root : Setting) (name : String) : Except SettingFault (Option (List String)) := do
  match ← root.require [name] ((root.under? name).getD nothing) with
  | list entries =>
      let values ← entries.zipIdx.mapM fun (entry, position) =>
        root.require [name, toString position] entry
      return some (values.filterMap fun
        | text value => some value
        | _ => none)
  | _ => return none

end Setting

end ManeuverRanking
