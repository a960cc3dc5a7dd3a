import Timepiece.Bytes
import Timepiece.Workshop.Path

/-!
# A disk in memory

Folders and files under one folder, with what can be told apart when a file
cannot be read or written.

## Main definitions

* `Disk` — the folders and files.
* `Disk.read`, `Disk.write`, `Disk.makeFolder` — the operations.
* `Disk.fileNames` — the paths of all files.
-/

namespace Timepiece

/-- Why a file cannot be read or written. -/
inductive DiskFault where
  /-- There is nothing of that name. -/
  | missing
  /-- What is there is of the wrong kind, or nothing can have such a name. -/
  | unusable
  deriving DecidableEq, Repr

/-- What stands at a place of the disk. -/
inductive DiskEntry where
  | folder
  | file (data : Bytes)
  deriving DecidableEq, Repr

/-- A place of the disk: the names that lead to it. -/
abbrev Place := List String

/-- Folders and files by their places. -/
structure Disk where
  entries : List (Place × DiskEntry)
  deriving DecidableEq, Repr

namespace Disk

/-- A disk without folders and files. -/
def empty : Disk := ⟨[]⟩

/-- What stands at a place.  The empty place is a folder. -/
def find? (disk : Disk) (place : Place) : Option DiskEntry :=
  if place.isEmpty then some .folder else disk.entries.lookup place

/-- Sets what stands at a place. -/
def put (disk : Disk) (place : Place) (entry : DiskEntry) : Disk :=
  ⟨(place, entry) :: disk.entries.filter fun other => other.1 != place⟩

/-- The place that some steps lead to.  On the way there have to be folders. -/
def follow (disk : Disk) (place : Place) : List String → Except DiskFault Place
  | [] => .ok place
  | name :: rest =>
    match disk.find? place with
    | some .folder =>
      if name = ".." then
        if place.isEmpty then .error .missing else follow disk place.dropLast rest
      else if Path.isName name then follow disk (place ++ [name]) rest
      else .error .unusable
    | some (.file _) => .error .unusable
    | none => .error .missing

/-- The place of a path.  Paths that leave the disk lead nowhere. -/
def place (disk : Disk) (path : String) : Except DiskFault Place :=
  if !Path.isSpeakable path then .error .unusable
  else if path = "" ∨ Path.isAbsolute path then .error .missing
  else disk.follow [] (Path.steps path)

/-- The contents of a file. -/
def read (disk : Disk) (path : String) : Except DiskFault Bytes :=
  match disk.place path with
  | .error fault => .error fault
  | .ok place =>
    match disk.find? place with
    | some (.file data) => if Path.endsAsFolder path then .error .unusable else .ok data
    | some .folder => .error .unusable
    | none => .error .missing

/-- The disk with a file written. -/
def write (disk : Disk) (path : String) (data : Bytes) : Except DiskFault Disk :=
  match disk.place path with
  | .error fault => .error fault
  | .ok place =>
    match disk.find? place with
    | some .folder => .error .unusable
    | _ => if Path.endsAsFolder path then .error .unusable else .ok (disk.put place (.file data))

/-- The disk with a folder at some place, and with folders on the way there. -/
def makeFolders (disk : Disk) (place : Place) : List String → Disk
  | [] => disk
  | name :: rest =>
    let place := place ++ [name]
    let disk := if (disk.find? place).isSome then disk else disk.put place .folder
    makeFolders disk place rest

/-- The disk with a folder. -/
def makeFolder (disk : Disk) (path : String) : Disk := disk.makeFolders [] (Path.steps path)

/-- The path of an entry, if it is a file. -/
def filePath? : Place × DiskEntry → Option String
  | (place, .file _) => some ("/".intercalate place)
  | (_, .folder) => none

/-- The paths of all files, sorted by their characters. -/
def fileNames (disk : Disk) : List String :=
  (disk.entries.filterMap filePath?).mergeSort fun a b => decide (a ≤ b)

end Disk

end Timepiece
