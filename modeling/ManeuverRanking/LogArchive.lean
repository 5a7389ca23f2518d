import ManeuverRanking.DriveLog
import ManeuverRanking.FileTree

/-!
An archive of recorded drives: a folder whose files are ordered by their names and found by their
names without the ending. What has another ending is passed over, and so is what lies deeper.
-/

namespace ManeuverRanking

structure ArchiveEntry (α : Type) where
  name : String
  node : FileNode (Option (DriveLog α))

structure LogArchive (α : Type) where
  entries : List (ArchiveEntry α)

namespace LogArchive

variable {α : Type}

def ending : String := ".pkl.xz"

def folder : Place := ["", ""]

def insertEntry (entry : ArchiveEntry α) : List (ArchiveEntry α) → List (ArchiveEntry α)
  | [] => [entry]
  | next :: rest =>
      if entry.name < next.name then entry :: next :: rest else next :: insertEntry entry rest

def withoutEnding? (entry : ArchiveEntry α) : Option (ArchiveEntry α) :=
  if entry.name.endsWith ending then
    let length := entry.name.length - ending.length
    some { entry with name := String.ofList (entry.name.toList.take length) }
  else none

def ofTree (tree : FileTree (Option (DriveLog α))) : LogArchive α :=
  let entries := (tree.contents folder).map fun (name, node) => ⟨name, node⟩
  ⟨(entries.foldr insertEntry []).filterMap withoutEnding?⟩

def write (making : Bool) (content : Option (DriveLog α))
    (tree : FileTree (Option (DriveLog α))) (path : String) :
    Except (Fault α) (FileTree (Option (DriveLog α))) :=
  (tree.write making folder path content).mapError (Fault.path path)

/-- The archive of some drives, each saved at a path, with some other files put beside them
afterwards. Saving a drive makes the folders of its path; another file needs them to be there. -/
def ofFiles (drives : List (String × DriveLog α)) (others : List String) :
    Except (Fault α) (LogArchive α) := do
  let tree ← drives.foldlM (fun tree (path, log) => write true (some log) tree path)
    (.ofFolder folder)
  return ofTree (← others.foldlM (write false none) tree)

def ofDrives (logs : List (DriveLog α)) : Except (Fault α) (LogArchive α) :=
  ofFiles (logs.map fun log => (log.name ++ ending, log)) []

def select (archive : LogArchive α) (names : Option (List String)) : LogArchive α :=
  match names with
  | none => archive
  | some names => ⟨archive.entries.filter fun entry => names.contains entry.name⟩

def size (archive : LogArchive α) : Nat :=
  archive.entries.length

def names (archive : LogArchive α) : List String :=
  archive.entries.map ArchiveEntry.name

def read (entry : ArchiveEntry α) : Except (Fault α) (DriveLog α) :=
  match entry.node with
  | .file (some log) => .ok log
  | .file none => .error (.unreadableLog entry.name)
  | .folder => .error (.path entry.name .folderForFile)

def named (archive : LogArchive α) (name : String) : Except (Fault α) (DriveLog α) :=
  match archive.entries.find? fun entry => entry.name = name with
  | some entry => read entry
  | none => .error (.unknownLog name)

def atPosition (archive : LogArchive α) (position : Int) : Except (Fault α) (DriveLog α) :=
  let index := if position < 0 then archive.size + position else position
  if index < 0 then .error (.noSuchLog position)
  else
    match archive.entries[index.toNat]? with
    | some entry => read entry
    | none => .error (.noSuchLog position)

def logs (archive : LogArchive α) : Except (Fault α) (List (DriveLog α)) :=
  archive.entries.mapM read

end LogArchive

end ManeuverRanking
