import LayerLint.Disk.Location

/-!
# Locating the configuration

A configuration named by the user is taken as it is. Otherwise the nearest directory above the
start that holds one decides, and after that the global directory.
-/

namespace LayerLint

/-- How a configuration was found. -/
inductive ConfigOrigin where
  /-- It was named. -/
  | flag
  /-- It stands in the start or above it. -/
  | project
  /-- It stands in the global directory. -/
  | global
  deriving DecidableEq, Repr

/-- The names of configurations in a project, in the order they are looked for. -/
def projectConfigNames : List String :=
  ["archgraph.toml", ".archgraph.toml"]

/-- The name of the configuration in the global directory. -/
def globalConfigName : String := "config.toml"

/-- The configuration in a directory. -/
def configIn? (isFile : String → Bool) (dir : String) : Option String :=
  (projectConfigNames.map (Location.below dir)).find? isFile

/-- The configuration that applies to a start. The start is taken by its canonical path where it
has one. -/
def locateConfig (isFile : String → Bool) (canonical : String → Option String) (start : String)
    (globalDir named : Option String) : Option (ConfigOrigin × String) :=
  match named with
  | some path => some (.flag, path)
  | none =>
    let start := (canonical start).getD start
    match (Location.ancestors start).findSome? (configIn? isFile) with
    | some path => some (.project, path)
    | none =>
      ((globalDir.map (Location.below · globalConfigName)).filter isFile).map (.global, ·)

/-- The paths at which a configuration is looked for when none is named. -/
def configCandidates (start : String) (globalDir : Option String) : List String :=
  (Location.ancestors start).flatMap (fun dir => projectConfigNames.map (Location.below dir)) ++
    (globalDir.map (Location.below · globalConfigName)).toList

end LayerLint
