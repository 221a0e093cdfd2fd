import LayerLint.Command.Failure
import LayerLint.Command.Locate
import LayerLint.Command.Log
import LayerLint.Command.World
import LayerLint.Config.Reader
import LayerLint.Manifest

/-!
# Input of commands

Commands read a configuration and a manifest, in this order, and set an analysis up.
-/

namespace LayerLint

/-- A command under way: it keeps a log and may fail. -/
abbrev Run := ExceptT Failure (StateM (List LogEntry))

namespace Run

/-- Adds entries to the log. -/
def log (entries : List LogEntry) : Run Unit :=
  modify (· ++ entries)

end Run

/-! ## Input -/

/-- The entry on how a configuration was found. -/
def ConfigOrigin.log (path : String) : ConfigOrigin → LogEntry
  | .global => .info s!"Using global config: {path}"
  | .flag | .project => .debug s!"Using config: {path}"

/-- Reads the configuration at a path. -/
def readConfig (world : World) (path : String) : Except Failure Config :=
  match world.read path with
  | .error fault => .error (.config path (.unreadable fault))
  | .ok text =>
    match Config.parse? text with
    | some config => .ok config
    | none => .error (.config path .malformed)

/-- The configuration that applies to a start, or the default one. -/
def loadConfig (world : World) (start : String) (named : Option String) : Run Config := do
  match locateConfig world.isFile world.canonical start world.globalDir named with
  | none =>
    Run.log [.debug "No config file found, using defaults"]
    return {}
  | some (origin, path) =>
    Run.log [origin.log path]
    ExceptT.mk (pure (readConfig world path))

/-- The path that stands for standard input. -/
def stdinPath : String := "-"

/-- Reads the manifest at a path. -/
def readManifest (world : World) (path : String) : Except Failure Manifest :=
  match if path = stdinPath then world.stdin else world.read path with
  | .error fault => .error (.manifest path (.unreadable fault))
  | .ok text =>
    match Manifest.parse? text with
    | some manifest => .ok manifest
    | none => .error (.manifest path .malformed)

/-- The directory that a configuration is looked for from. -/
def projectDir (manifest : String) : String :=
  if manifest = stdinPath then "."
  else
    match Location.parent? manifest with
    | some dir => if dir.isEmpty then "." else dir
    | none => "."

/-- The project of a manifest and the configuration that applies to it. -/
def loadProject (world : World) (manifest : String) (named : Option String) :
    Run (Project × Config) := do
  let config ← loadConfig world (projectDir manifest) named
  let project := (← ExceptT.mk (pure (readManifest world manifest))).toProject
  Run.log [.debug s!"Loaded {project.files.length} entries from {manifest}"]
  return (project, config)

/-- An analysis under a configuration. -/
def createAnalyzer (config : Config) (rules : List Rule) : Run Analyzer :=
  match Analyzer.create config rules Pattern.isMatch with
  | .ok analyzer => return analyzer
  | .error fault => throw (.layers fault)

end LayerLint
