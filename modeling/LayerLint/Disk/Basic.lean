import LayerLint.Assoc
import LayerLint.Text.Split

/-!
# Disks

A tree of directories and files held in memory, and how paths lead through it.
-/

namespace LayerLint

/-- Why a path cannot be read or written. -/
inductive DiskFault where
  | missing
  /-- A file stands where a directory is needed. -/
  | notDirectory
  /-- A directory stands where a file is needed. -/
  | isDirectory
  /-- A name or a path is longer than any can be. -/
  | tooLong
  /-- The bytes of a file spell no text. -/
  | notText
  /-- The user may not look. -/
  | denied
  deriving DecidableEq, Repr

/-- The fault in words. -/
def DiskFault.message : DiskFault → String
  | .missing => "No such file or directory (os error 2)"
  | .notDirectory => "Not a directory (os error 20)"
  | .isDirectory => "Is a directory (os error 21)"
  | .tooLong => "File name too long (os error 36)"
  | .notText => "stream did not contain valid UTF-8"
  | .denied => "Permission denied (os error 13)"

/-- What stands at a place. -/
inductive DiskEntry where
  | file (text : String)
  | directory
  deriving DecidableEq, Repr

/-- A place on a disk: the names that lead to it from the root. -/
abbrev Place := List String

/-- What stands on a disk, apart from the root. -/
structure Disk where
  entries : List (Place × DiskEntry) := []
  deriving DecidableEq, Repr

namespace Disk

/-- What stands at a place. -/
def entry? (disk : Disk) (place : Place) : Option DiskEntry :=
  if place.isEmpty then some .directory
  else (disk.entries.find? (·.1 == place)).map (·.2)

/-- Puts an entry at a place, instead of the one that was there. -/
def put (disk : Disk) (place : Place) (entry : DiskEntry) : Disk :=
  { entries := disk.entries.filter (·.1 != place) ++ [(place, entry)] }

/-- Makes a directory where there is nothing. -/
def ensureDirectory (disk : Disk) (place : Place) : Disk :=
  if (disk.entry? place).isSome then disk else disk.put place .directory

/-- The greatest number of bytes in a name. -/
def nameLimit : Nat := 255

/-- The greatest number of bytes in a path that is read. -/
def pathLimit : Nat := 4095

/-- Follows segments from a place. Every segment, an empty one too, needs a directory to start
from. -/
def follow (disk : Disk) : Place → List String → Except DiskFault Place
  | place, [] => .ok place
  | place, segment :: rest =>
    match disk.entry? place with
    | none => .error .missing
    | some (.file _) => .error .notDirectory
    | some .directory =>
      if segment = "" ∨ segment = "." then disk.follow place rest
      else if segment = ".." then disk.follow place.dropLast rest
      else if nameLimit < segment.utf8ByteSize then .error .tooLong
      else if (disk.entry? (place ++ [segment])).isSome then disk.follow (place ++ [segment]) rest
      else .error .missing

/-- The segments of a path. -/
def segmentsOf (path : String) : List String :=
  (Text.splitOn '/' path.toList).map String.ofList

/-- Follows segments from a place, makes the directories that are missing on the way, and gives the
place that is reached. -/
def makeWay (disk : Disk) : Place → List String → Disk × Place
  | place, [] => (disk, place)
  | place, segment :: rest =>
    if segment = "" ∨ segment = "." then disk.makeWay place rest
    else if segment = ".." then disk.makeWay place.dropLast rest
    else (disk.ensureDirectory (place ++ [segment])).makeWay (place ++ [segment]) rest

/-- Makes the directory at a path and those on the way to it. -/
def addDirectory (disk : Disk) (cwd : Place) (path : String) : Disk :=
  (disk.makeWay cwd (segmentsOf path)).1

/-- Writes the file at a path and makes the directories on the way to it. -/
def addFile (disk : Disk) (cwd : Place) (path text : String) : Disk :=
  let (disk, place) := disk.makeWay cwd (segmentsOf path).dropLast
  disk.put (place ++ [(segmentsOf path).getLastD ""]) (.file text)

/-- The place that a path leads to from a working directory. -/
def locate (disk : Disk) (cwd : Place) (path : String) : Except DiskFault Place :=
  if path.isEmpty then .error .missing
  else disk.follow (if path.toList.head? == some '/' then [] else cwd) (segmentsOf path)

/-- The text of the file at a path. -/
def read (disk : Disk) (cwd : Place) (path : String) : Except DiskFault String := do
  if pathLimit < path.utf8ByteSize then
    throw .tooLong
  match disk.entry? (← disk.locate cwd path) with
  | some (.file text) => .ok text
  | some .directory => .error .isDirectory
  | none => .error .missing

/-- Whether there is a file at a path. -/
def isFile (disk : Disk) (cwd : Place) (path : String) : Bool :=
  match disk.read cwd path with
  | .ok _ => true
  | .error _ => false

/-- The path from the root to what stands at a path. -/
def canonical (disk : Disk) (cwd : Place) (path : String) : Option String :=
  match disk.locate cwd path with
  | .ok place => some ("/" ++ Text.join "/" place)
  | .error _ => none

/-- Writes the file of a name in the working directory. -/
def write (disk : Disk) (cwd : Place) (name text : String) : Except DiskFault Disk :=
  match disk.entry? (cwd ++ [name]) with
  | some .directory => .error .isDirectory
  | _ => .ok (disk.put (cwd ++ [name]) (.file text))

end Disk

end LayerLint
