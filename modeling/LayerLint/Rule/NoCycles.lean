import LayerLint.Graph.Component
import LayerLint.Graph.CycleWalk
import LayerLint.Rule.Basic

/-!
# Rule: no cycles

Every cycle is reported at the file whose import closes it. On request each group of files that
depend on each other is reported as well, as an information.
-/

namespace LayerLint.NoCycles

def name : String := "no-cycles"

def code : String := "AG002"

/-- How the rule is set up. -/
structure Settings where
  severity : Severity := .error
  /-- Whether groups of files are reported. -/
  reportComponents : Bool := false

/-- The violation of a cycle that is closed by an import of `closing`. -/
def cycleViolation (severity : Severity) (cycle : Cycle) (closing : String) : Violation :=
  { code, rule := name, severity
    path := closing
    message := "cyclic dependency detected"
    context := some s!"cycle: {cycle.text}"
    suggestions :=
      ["Break the cycle by introducing an interface or abstraction",
        "Restructure the code to remove circular imports",
        "Consider dependency inversion principle"] }

/-- The information on a group of files, reported at its first file. -/
def componentViolation (component : Component) (first : String) : Violation :=
  { code, rule := name
    severity := .info
    path := first
    message := s!"{component.nodes.length} files are mutually dependent"
    context := some ("component: " ++ Text.join ", " component.files) }

/-- What the rule reports. -/
def check (settings : Settings) (scene : Scene) : List Violation :=
  let cycles := scene.graph.cycles.filterMap fun cycle =>
    cycle.closingFile.map (cycleViolation settings.severity cycle)
  let components :=
    if settings.reportComponents then
      scene.graph.components.filterMap fun component =>
        component.files.head?.map (componentViolation component)
    else []
  cycles ++ components

/-- The rule. -/
def rule (settings : Settings) : Rule :=
  { name, code
    severity := settings.severity
    description := "Forbids circular dependencies between files"
    check := check settings }

end LayerLint.NoCycles
