import LayerLint.Analysis

/-!
# Log

What a command tells about its work while it goes on.
-/

namespace LayerLint

/-- How much an entry matters. -/
inductive LogLevel where
  | debug
  | info
  | warn
  deriving DecidableEq, Repr

/-- The name of a level. -/
def LogLevel.name : LogLevel → String
  | .debug => "DEBUG"
  | .info => "INFO"
  | .warn => "WARN"

/-- An entry of a log. -/
structure LogEntry where
  level : LogLevel
  text : String
  deriving DecidableEq, Repr

namespace LogEntry

/-- An entry on a detail. -/
def debug (text : String) : LogEntry := ⟨.debug, text⟩

/-- An entry on the course of work. -/
def info (text : String) : LogEntry := ⟨.info, text⟩

/-- An entry on something odd. -/
def warn (text : String) : LogEntry := ⟨.warn, text⟩

/-- A character of an entry as it is shown: those that steer a terminal are spelled out. -/
def escapeChar (c : Char) : List Char :=
  let digits := Nat.toDigits 16 c.toNat
  if c == '\x07' || c == '\x08' || c == '\x0c' then ['\\', 'x', '0'] ++ digits
  else if c == '\x1b' || c == '\x7f' then ['\\', 'x'] ++ digits
  else if 0x80 ≤ c.toNat && c.toNat ≤ 0x9F then ['\\', 'u', '\x7b'] ++ digits ++ ['\x7d']
  else [c]

/-- The text of an entry as it is shown. -/
def shownText (entry : LogEntry) : String :=
  Text.expand escapeChar entry.text

/-- The line of an entry; the names of levels end in one column. -/
def line (entry : LogEntry) : String :=
  let name := entry.level.name
  String.ofList (List.replicate (5 - name.length) ' ') ++ name ++ " " ++ entry.shownText

end LogEntry

/-- The paths of files whose path came before. -/
def repeatedPaths (seen : List String) : List SourceFile → List String
  | [] => []
  | file :: rest =>
    if file.isDirectory then repeatedPaths seen rest
    else if file.path ∈ seen then file.path :: repeatedPaths seen rest
    else repeatedPaths (file.path :: seen) rest

/-- What is odd about an import. -/
def ImportRecord.log (record : ImportRecord) : Option LogEntry :=
  match record.resolved with
  | none => some (.debug s!"Unresolved import in {record.source}: {record.raw}")
  | some target =>
    if target = record.source then some (.debug s!"Dropping self-import in {record.source}")
    else none

/-- The log of building a graph: files that come again, imports without a file, and then the
imports one by one. -/
def Graph.log (project : Project) (g : Graph) : List LogEntry :=
  let repeated := (repeatedPaths [] project.files).map fun path =>
    LogEntry.debug s!"Skipping duplicate file entry: {path}"
  let strangers := (project.imports.keys.filter fun path => path ∉ g.paths).map fun path =>
    LogEntry.warn s!"Ignoring imports for unknown file: {path}"
  repeated ++ strangers ++ g.records.toList.filterMap ImportRecord.log

/-- The log of finding the layers of nodes. -/
def LayerMap.log (g : Graph) (map : LayerMap) : List LogEntry :=
  g.nodes.map fun node =>
    match map.nameOf node with
    | some name => .debug s!"{g.path node} -> layer {name}"
    | none => .debug s!"{g.path node} is not in any layer"

/-- The log of preparing a project. -/
def Scene.log (project : Project) (scene : Scene) : List LogEntry :=
  scene.graph.log project ++ scene.layers.log scene.graph

/-- The log of running a rule. -/
def Rule.log (config : Config) (rule : Rule) : LogEntry :=
  if config.isEnabled rule.name then .debug s!"Running rule: {rule.name}"
  else .debug s!"Skipping disabled rule: {rule.name}"

/-- The log of an analysis. -/
def Analyzer.log (analyzer : Analyzer) (project : Project) (scene : Scene) (report : Report) :
    List LogEntry :=
  let files := scene.graph.size
  let edges := scene.graph.edges.size
  let assigned := scene.layers.assignedCount
  [.info s!"Starting analysis of {project.files.length} entries"] ++ scene.log project ++
    [.info s!"Built graph: {files} files, {edges} edges, {assigned} assigned to layers"] ++
    analyzer.rules.map (Rule.log analyzer.config) ++
    [.info s!"Analysis complete: {report.violations.length} violations in {files} files"]

end LayerLint
