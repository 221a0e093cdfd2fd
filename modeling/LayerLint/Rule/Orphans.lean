import LayerLint.Rule.Basic

/-!
# Rule: orphaned files

A file that no other file imports is reported, unless it is an entry point, a test, configuration
or documentation.
-/

namespace LayerLint.Orphans

def name : String := "orphaned-files"

def code : String := "AG006"

/-- Base names of entry points. -/
def entryNames : List String :=
  ["main.go", "main.ts", "main.js", "main.py", "index.ts", "index.js", "app.ts", "app.js",
    "app.py", "__init__.py", "manage.py"]

/-- Parts of a path that mark a test. -/
def testMarkers : List String :=
  ["_test.", ".test.", ".spec."]

/-- What base names of configuration files start with. -/
def configNames : List String :=
  ["archgraph.toml", ".archgraph.toml", "archgraph.json", "package.json", "tsconfig.json",
    "go.mod", "go.sum", "setup.py", "pyproject.toml", "Makefile", ".gitignore", ".eslintrc",
    ".prettierrc"]

/-- What base names of documentation end with. -/
def docExtensions : List String :=
  [".md", ".txt"]

/-- How the rule is set up. -/
structure Settings where
  /-- Patterns of entry points. -/
  entryPoints : List String := []
  matcher : Matcher := Pattern.isMatch
  severity : Severity := .warning

/-- Whether a file is used without being imported. -/
def isEntryPoint (settings : Settings) (path : String) : Bool :=
  settings.entryPoints.any (settings.matcher path ·) ||
    entryNames.contains (Path.baseName path) || testMarkers.any (Text.contains path ·)

/-- Whether a file is configuration or documentation. -/
def isConfigOrDoc (path : String) : Bool :=
  let base := Path.baseName path
  configNames.any (Text.startsWith base ·) || docExtensions.any (Text.endsWith base ·)

/-- The violation of an orphaned file. -/
def violation (severity : Severity) (path : String) : Violation :=
  { code, rule := name, severity, path
    message := "file is orphaned (not imported by any other file)"
    suggestions :=
      ["Delete the file if it is no longer used",
        "Add it to entry_points if it is loaded by a tool or framework"] }

/-- What the rule reports. -/
def check (settings : Settings) (scene : Scene) : List Violation :=
  let orphans := scene.graph.nodes.filter fun node => scene.graph.fanIn node == 0
  let paths := (orphans.map scene.graph.path).filter fun path =>
    !isEntryPoint settings path && !isConfigOrDoc path
  paths.map (violation settings.severity)

/-- The rule. -/
def rule (settings : Settings) : Rule :=
  { name, code
    severity := settings.severity
    description := "Flags files that no other project file imports"
    check := check settings }

end LayerLint.Orphans
