import LayerLint.Rule.Basic

/-!
# Rule: layer boundaries

A file may depend on a file of another layer only where its own layer allows it.
-/

namespace LayerLint.LayerBoundaries

def name : String := "layer-boundaries"

def code : String := "AG001"

/-- What a layer may depend on, in words. -/
def allowance (layer : Layer) : String :=
  if layer.dependsOn.isEmpty then "no other layer"
  else "one of [" ++ Text.join ", " layer.dependsOn ++ "]"

/-- The violation of an edge between files of these layers. -/
def violation (severity : Severity) (importing imported : String) (source target : Layer) :
    Violation :=
  { code, rule := name, severity
    path := importing
    message := s!"layer '{source.name}' cannot import from layer '{target.name}'"
    context := some s!"imported: {imported}"
    expected := some (allowance source)
    actual := some target.name
    suggestions :=
      [s!"Move the shared code into a layer that '{source.name}' may depend on",
        "Invert the dependency through an interface owned by the importing layer",
        s!"If intended, add '{target.name}' to depends_on of layer '{source.name}'"] }

/-- The violation of an edge, if it crosses a boundary. -/
def checkEdge (severity : Severity) (scene : Scene) (edge : Nat × Nat) : Option Violation := do
  let source ← scene.layers.layerOf edge.1
  let target ← scene.layers.layerOf edge.2
  if source.allows target.name then none
  else
    some (violation severity (scene.graph.path edge.1) (scene.graph.path edge.2) source target)

/-- The rule, with the severity of its violations. -/
def rule (severity : Severity) : Rule :=
  { name, code, severity
    description := "Enforces allowed dependencies between architectural layers"
    check := fun scene => scene.graph.edges.toList.filterMap (checkEdge severity scene) }

end LayerLint.LayerBoundaries
