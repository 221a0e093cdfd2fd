import LayerLint.Layer
import LayerLint.Report.Violation

/-!
# Rules

A rule looks at a graph and the layers of its nodes, and lists violations.
-/

namespace LayerLint

/-- What rules look at. -/
structure Scene where
  graph : Graph
  layers : LayerMap

/-- A check with a name. -/
structure Rule where
  name : String
  code : String
  description : String
  severity : Severity
  check : Scene → List Violation

/-- The names a rule is known by. -/
def Rule.isCalled (rule : Rule) (name : String) : Bool :=
  rule.name == name || rule.code == name

end LayerLint
