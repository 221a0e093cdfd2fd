import LayerLint.Rule.Basic

/-!
# Rule: number of dependencies

A file may depend on at most so many other files of the project.
-/

namespace LayerLint.MaxDependencies

def name : String := "max-dependencies"

def code : String := "AG003"

/-- How the rule is set up. -/
structure Settings where
  limit : Nat
  severity : Severity := .error

/-- The violation of a file with too many dependencies. -/
def violation (settings : Settings) (path : String) (count : Nat) : Violation :=
  { code, rule := name
    severity := settings.severity
    path
    message := s!"file has too many dependencies ({count} > {settings.limit})"
    expected := some s!"at most {settings.limit} dependencies"
    actual := some s!"{count} dependencies"
    suggestions :=
      ["Consider breaking this file into smaller, focused modules",
        "Use dependency injection to reduce coupling",
        "Look for common dependencies that could be grouped"] }

/-- What the rule reports. -/
def check (settings : Settings) (scene : Scene) : List Violation :=
  scene.graph.nodes.filterMap fun node =>
    let count := scene.graph.outDegree node
    if count ≤ settings.limit then none
    else some (violation settings (scene.graph.path node) count)

/-- The rule. -/
def rule (settings : Settings) : Rule :=
  { name, code
    severity := settings.severity
    description := "Limits the number of project files a single file imports"
    check := check settings }

end LayerLint.MaxDependencies
