import LayerLint.Disk.Basic

/-!
# Surroundings of a command
-/

namespace LayerLint

/-- What a command sees of its surroundings. Paths are taken from the working directory. -/
structure World where
  /-- The text of the file at a path. -/
  read : String → Except DiskFault String
  /-- Whether anything stands at a path. -/
  isPresent : String → Bool
  /-- The path from the root to what stands at a path. -/
  canonical : String → Option String
  /-- The text on standard input. -/
  stdin : Except DiskFault String
  /-- The directory of the global configuration. -/
  globalDir : Option String

/-- Whether there is a file at a path. -/
def World.isFile (world : World) (path : String) : Bool :=
  (world.read path).toOption.isSome

/-- The world of a working directory on a disk. -/
def World.onDisk (disk : Disk) (cwd : Place) (stdin : String) (globalDir : Option String) :
    World :=
  { read := disk.read cwd
    isPresent := fun path => (disk.canonical cwd path).isSome
    canonical := disk.canonical cwd
    stdin := .ok stdin
    globalDir }

end LayerLint
