import ManeuverRanking.Setting

/-!
Texts with references. A reference stands between a dollar sign with an opening brace and a closing
brace; a backslash before the dollar sign takes away its meaning, and another backslash gives it
back. A reference names the way to a setting, or a source other than the settings with an argument.
-/

namespace ManeuverRanking

mutual

inductive Reference where
  /-- The way to a setting. Each point in front goes one level up, the first one only to the level
  of the text; without a point the way starts from the whole configuration. -/
  | setting (points : Nat) (keys : List Key)
  | outside (source argument : String)

inductive Key where
  | name (text : String)
  | looked (reference : Reference)

end

inductive TextPart where
  | plain (text : String)
  | reference (reference : Reference)

namespace Template

def isBlank (letter : Char) : Bool :=
  letter = ' ' || letter = '\t'

def isNameLetter (letter : Char) : Bool :=
  !("\\\x7b\x7d()[]:. \t\x27\"".toList.contains letter)

def isIdentifier (text : String) : Bool :=
  match text.toList with
  | [] => false
  | first :: rest =>
      (first.isAlpha || first = '_')
        && rest.all fun letter => letter.isAlphanum || letter = '_' || letter = '-'

def sourceName? (keys : List Key) : Option String :=
  let names := keys.map fun
    | .name text => text
    | .looked _ => ""
  if names.all isIdentifier then some (".".intercalate names) else none

def argument? (depth : Nat) (taken : List Char) : List Char → Option (String × List Char)
  | [] => none
  | letter :: rest =>
      if letter = '\x7d' then
        match depth with
        | 0 => some (String.ofList taken.reverse, rest)
        | depth + 1 => argument? depth (letter :: taken) rest
      else argument? (if letter = '\x7b' then depth + 1 else depth) (letter :: taken) rest

def close? (points : Nat) (bracketed : Bool) (keys : List Key) (text : List Char) :
    Option (Reference × List Char) :=
  match text.dropWhile isBlank with
  | '\x7d' :: rest => some (.setting points keys.reverse, rest)
  | ':' :: rest => do
      let source ← if points = 0 && !bracketed then sourceName? keys.reverse else none
      let (argument, rest) ← argument? 0 [] rest
      return (.outside source argument, rest)
  | _ => none

mutual

def reference? : Nat → List Char → Option (Reference × List Char)
  | 0, _ => none
  | fuel + 1, text =>
      let text := text.dropWhile isBlank
      let points := text.takeWhile (· = '.')
      keys? fuel points.length false [] (text.dropWhile (· = '.'))

def keys? : Nat → Nat → Bool → List Key → List Char → Option (Reference × List Char)
  | 0, _, _, _, _ => none
  | fuel + 1, points, _, keys, '[' :: text =>
      match key? fuel text with
      | some (key, ']' :: rest) => onward? fuel points true (key :: keys) rest
      | _ => none
  | fuel + 1, points, bracketed, keys, text => do
      let (key, rest) ← key? fuel text
      onward? fuel points bracketed (key :: keys) rest

def onward? : Nat → Nat → Bool → List Key → List Char → Option (Reference × List Char)
  | 0, _, _, _, _ => none
  | _, _, _, _, '.' :: '[' :: _ => none
  | fuel + 1, points, bracketed, keys, '.' :: rest => keys? fuel points bracketed keys rest
  | fuel + 1, points, bracketed, keys, '[' :: rest => keys? fuel points bracketed keys ('[' :: rest)
  | _, points, bracketed, keys, rest => close? points bracketed keys rest

def key? : Nat → List Char → Option (Key × List Char)
  | 0, _ => none
  | fuel + 1, '$' :: '\x7b' :: rest => do
      let (reference, rest) ← reference? fuel rest
      return (.looked reference, rest)
  | _, text =>
      match text.takeWhile isNameLetter with
      | [] => none
      | name => some (.name (String.ofList name), text.dropWhile isNameLetter)

end

def depthOf (text : List Char) : Nat :=
  4 * text.length + 4

def isOpening : List Char → Bool
  | '$' :: '\x7b' :: _ => true
  | _ => false

def parts? : Nat → List Char → Option (List TextPart)
  | 0, _ => none
  | _, [] => some []
  | fuel + 1, '$' :: '\x7b' :: rest => do
      let (reference, rest) ← reference? (depthOf rest) rest
      return .reference reference :: (← parts? fuel rest)
  | fuel + 1, '\\' :: text => do
      let slashes := 1 + (text.takeWhile (· = '\\')).length
      let rest := text.dropWhile (· = '\\')
      if isOpening rest then
        let kept := String.ofList (List.replicate (slashes / 2) '\\')
        if slashes % 2 = 0 then return .plain kept :: (← parts? fuel rest)
        else return .plain (kept ++ "$\x7b") :: (← parts? fuel (rest.drop 2))
      else
        return .plain (String.ofList (List.replicate slashes '\\')) :: (← parts? fuel rest)
  | fuel + 1, letter :: rest => return .plain letter.toString :: (← parts? fuel rest)

def isPlain : List Char → Bool
  | [] => true
  | letter :: rest => !isOpening (letter :: rest) && isPlain rest

def read (text : String) : Except SettingFault (List TextPart) :=
  match parts? (text.length + 1) text.toList with
  | some parts => .ok parts
  | none => .error (.malformed text)

def check (setting : Setting) : Except SettingFault Unit :=
  setting.texts.forM fun text =>
    if isPlain text.toList then pure () else do
      let _ ← read text

end Template

end ManeuverRanking
