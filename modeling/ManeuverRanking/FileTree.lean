/-!
A tree of folders and files. A path leads from a folder to another place by the names on it; two
points lead to the folder around. The tree is kept as the places that it holds something at.
-/

namespace ManeuverRanking

inductive PathFault where
  | nullCharacter
  | tooLong
  | missingFolder
  | fileOnTheWay
  | fileForFolder
  | folderForFile
  deriving DecidableEq, Repr

/-- The names that lead to a place from the outermost folder, the last one first. -/
@[reducible] def Place : Type :=
  List String

inductive FileNode (β : Type) where
  | folder
  | file (content : β)

structure FileTree (β : Type) where
  nodes : List (Place × FileNode β)

namespace FileTree

variable {β : Type}

def nameLimit : Nat := 255

def pathLimit : Nat := 4078

def pathNames (path : String) : List String :=
  (path.splitOn "/").filter fun name => name ≠ "" && name ≠ "."

def pathBytes (names : List String) : Nat :=
  names.foldl (fun bytes name => bytes + name.utf8ByteSize + 1) 0

def checkPath (names : List String) : Except PathFault Unit :=
  if names.any fun name => name.contains '\x00' then .error .nullCharacter
  else if pathLimit < pathBytes names then .error .tooLong
  else .ok ()

def onward (place : Place) (name : String) : Place :=
  if name = ".." then place.drop 1 else name :: place

def around : Place → List Place
  | [] => [[]]
  | name :: outer => (name :: outer) :: around outer

def ofFolder (place : Place) : FileTree β :=
  ⟨(around place).map fun place => (place, .folder)⟩

def find? (tree : FileTree β) (place : Place) : Option (FileNode β) :=
  tree.nodes.lookup place

def set (tree : FileTree β) (place : Place) (node : FileNode β) : FileTree β :=
  ⟨(place, node) :: tree.nodes.filter fun entry => entry.1 ≠ place⟩

def contents (tree : FileTree β) (folder : Place) : List (String × FileNode β) :=
  tree.nodes.filterMap fun entry =>
    match entry.1 with
    | name :: outer => if outer = folder then some (name, entry.2) else none
    | [] => none

def enter (making : Bool) (tree : FileTree β) (place : Place) :
    List String → Except PathFault (FileTree β × Place)
  | [] => .ok (tree, place)
  | name :: rest =>
      let next := onward place name
      if nameLimit < name.utf8ByteSize then .error .tooLong
      else
        match tree.find? next with
        | some .folder => enter making tree next rest
        | some (.file _) =>
            .error (if making && rest.isEmpty then .fileForFolder else .fileOnTheWay)
        | none =>
            if making then enter making (tree.set next .folder) next rest
            else .error .missingFolder

def writeIn (tree : FileTree β) (folder : Place) (name : String) (content : β) :
    Except PathFault (FileTree β) :=
  let place := onward folder name
  if nameLimit < name.utf8ByteSize then .error .tooLong
  else
    match tree.find? place with
    | some .folder => .error .folderForFile
    | _ => .ok (tree.set place (.file content))

/-- Writes a file at the end of a path from a folder. A path with a leading slash starts from the
outermost folder. The folders on the way are checked before the name of the file, if they are to
be made. -/
def write (tree : FileTree β) (making : Bool) (folder : Place) (path : String) (content : β) :
    Except PathFault (FileTree β) := do
  let names := pathNames path
  let start := if path.startsWith "/" then [] else folder
  checkPath (if making then names.dropLast else names)
  let (tree, folder) ← enter making tree start names.dropLast
  checkPath names
  match names.getLast? with
  | some name => tree.writeIn folder name content
  | none => .error .folderForFile

end FileTree

end ManeuverRanking
