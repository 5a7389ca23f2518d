/-!
Configured values. A text may refer to other settings; it is text all the same until it is looked
up.
-/

namespace ManeuverRanking

inductive Setting where
  | nothing
  | truth (value : Bool)
  | whole (value : Int)
  | decimal (value : Float)
  | text (value : String)
  | list (entries : List Setting)
  | table (entries : List (String × Setting))

inductive SettingFault where
  | malformed (text : String)
  | undecided
  | missing (name : String)
  | missingValue (name : String)
  | unknownSource (name : String)
  | unresolved
  deriving DecidableEq, Repr

namespace Setting

instance inhabitedSetting : Inhabited Setting := ⟨nothing⟩

def undecided : String := "???"

def isBlank : Setting → Bool
  | nothing => true
  | truth value => !value
  | whole value => value = 0
  | decimal value => value == 0
  | text value => value = ""
  | list entries => entries.isEmpty
  | table entries => entries.isEmpty

mutual

def texts : Setting → List String
  | .text value => [value]
  | .list entries => textsOfList entries
  | .table entries => textsOfTable entries
  | _ => []

def textsOfList : List Setting → List String
  | [] => []
  | entry :: rest => texts entry ++ textsOfList rest

def textsOfTable : List (String × Setting) → List String
  | [] => []
  | (_, entry) :: rest => texts entry ++ textsOfTable rest

end

end Setting

end ManeuverRanking
