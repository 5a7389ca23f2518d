/-!
Comma separated text. A field that holds a separator, a quote or a line feed is quoted, and a quote
inside it is written twice. A reader takes a carriage return for a line break too, unless it is
quoted.
-/

namespace ManeuverRanking

namespace Csv

def isSpecial (letter : Char) : Bool :=
  ",\"\n".toList.contains letter

def encode : List Char → List Char
  | [] => []
  | letter :: rest => if letter = '"' then '"' :: '"' :: encode rest else letter :: encode rest

def field (text : String) : String :=
  if text.toList.any isSpecial then String.ofList ('"' :: encode text.toList ++ ['"']) else text

def line (fields : List String) : String :=
  ",".intercalate (fields.map field) ++ "\n"

inductive Stand where
  | opening
  | plain
  | quoted
  | closing
  deriving DecidableEq, Repr

def recordOf (fields : List String) (field : List Char) : List String :=
  if fields.isEmpty && field.isEmpty then [] else (String.ofList field.reverse :: fields).reverse

def recordsFrom (fields : List String) (field : List Char) :
    Stand → List Char → List (List String)
  | stand, [] =>
      if stand = .opening && fields.isEmpty then [] else [recordOf fields field]
  | .quoted, '"' :: rest => recordsFrom fields field .closing rest
  | .quoted, letter :: rest => recordsFrom fields (letter :: field) .quoted rest
  | .closing, '"' :: rest => recordsFrom fields ('"' :: field) .quoted rest
  | .opening, '"' :: rest => recordsFrom fields field .quoted rest
  | _, ',' :: rest => recordsFrom (String.ofList field.reverse :: fields) [] .opening rest
  | _, '\r' :: '\n' :: rest => recordOf fields field :: recordsFrom [] [] .opening rest
  | _, '\r' :: rest => recordOf fields field :: recordsFrom [] [] .opening rest
  | _, '\n' :: rest => recordOf fields field :: recordsFrom [] [] .opening rest
  | _, letter :: rest => recordsFrom fields (letter :: field) .plain rest

def records (text : String) : List (List String) :=
  recordsFrom [] [] .opening text.toList

end Csv

end ManeuverRanking
