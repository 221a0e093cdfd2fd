import LayerLint.Config.Basic
import LayerLint.Report.Basic
import LayerLint.Rule.Basic

/-!
# Analysis

Rules run over a project one after the other; the report lists what they found by path, and for
each path in the order of the rules.
-/

namespace LayerLint

/-- Rules with the configuration they run under. -/
structure Analyzer where
  rules : List Rule
  config : Config
  matcher : Matcher

namespace Analyzer

/-- Sets an analysis up, unless the configuration has a fault. -/
def create (config : Config) (rules : List Rule) (matcher : Matcher) :
    Except LayerFault Analyzer := do
  config.validate
  return { rules, config, matcher }

/-- The declared layers. -/
def layering (analyzer : Analyzer) : Layering :=
  { layers := analyzer.config.layers, matcher := analyzer.matcher }

/-- The graph of a project and the layers of its nodes. -/
def prepare (analyzer : Analyzer) (project : Project) : Scene :=
  let graph := Graph.build project
  { graph, layers := analyzer.layering.assign graph }

/-- Gives violations the severity that is set for their rule. -/
def overrideSeverity (severity : Option Severity) (violations : List Violation) : List Violation :=
  match severity with
  | some severity => violations.map fun v => { v with severity }
  | none => violations

/-- What a rule finds, nothing when it is switched off. -/
def runRule (analyzer : Analyzer) (scene : Scene) (rule : Rule) : List Violation :=
  if analyzer.config.isEnabled rule.name then
    overrideSeverity (analyzer.config.severityOf rule.name) (rule.check scene)
  else []

/-- Violations in the order of their paths; those of one path keep their order. -/
def sortByPath (violations : List Violation) : List Violation :=
  violations.mergeSort fun a b => Text.notAfter a.path.toList b.path.toList

/-- The report on what rules see. -/
def reportOn (analyzer : Analyzer) (scene : Scene) : Report :=
  { violations := sortByPath (analyzer.rules.flatMap (analyzer.runRule scene))
    filesChecked := scene.graph.size }

/-- The report on a project. -/
def analyze (analyzer : Analyzer) (project : Project) : Report :=
  analyzer.reportOn (analyzer.prepare project)

end Analyzer

end LayerLint
