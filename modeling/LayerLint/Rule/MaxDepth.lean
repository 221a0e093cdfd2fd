import LayerLint.Graph.Depth
import LayerLint.Rule.Basic

/-!
# Rule: depth of import chains

A file may not sit on chains of imports that are longer than a limit.
-/

namespace LayerLint.MaxDepth

def name : String := "max-dependency-depth"

def code : String := "AG004"

/-- How the rule is set up. -/
structure Settings where
  limit : Nat
  /-- Whether files on a cycle are passed over. -/
  skipCyclic : Bool := false
  severity : Severity := .error

/-- The violation of a file that is too deep. -/
def violation (settings : Settings) (path : String) (entry : FileDepth) : Violation :=
  { code, rule := name
    severity := settings.severity
    path
    message := s!"dependency chain too deep ({entry.depth} > {settings.limit})"
    context :=
      if entry.inCycle then
        some "file is part of a dependency cycle; depth may be undercounted"
      else none
    expected := some s!"dependency depth at most {settings.limit}"
    actual := some s!"dependency depth {entry.depth}"
    suggestions :=
      ["Flatten the dependency hierarchy",
        "Consider using facades or abstraction layers",
        "Review the architectural design for unnecessary layering"] }

/-- What the rule reports. -/
def check (settings : Settings) (scene : Scene) : List Violation :=
  let entries := scene.graph.depths.exceeding settings.limit
  let entries := entries.filter fun entry => !(entry.inCycle && settings.skipCyclic)
  entries.map fun entry => violation settings (scene.graph.path entry.node) entry

/-- The rule. -/
def rule (settings : Settings) : Rule :=
  { name, code
    severity := settings.severity
    description := "Limits the length of dependency chains"
    check := check settings }

end LayerLint.MaxDepth
