import LayerLint.Config.Basic
import LayerLint.Toml.Reader

/-!
# Reading configurations

Fields that are not known do not count; a field of the wrong kind spoils the configuration.
-/

namespace LayerLint

open Toml

/-- Reads a severity: its name, or a table with the name as its only key and nothing in it. -/
def Severity.ofToml? : Value → Option Severity
  | .string name => ofName? name
  | .table [(name, .table [])] => ofName? name
  | .table [(name, .array [])] => ofName? name
  | _ => none

/-- Reads a layer. -/
def Layer.ofToml? (value : Value) : Option Layer := do
  let [name, pattern, dependsOn] ← value.record? ["name", "path", "depends_on"] | none
  return {
    name := ← name.bind Value.text?
    pattern := ← pattern.bind Value.text?
    dependsOn := ← Value.defaulted Value.texts? [] dependsOn }

/-- Reads properties. -/
def Properties.ofToml? (value : Value) : Option Properties := do
  let [detectCycles, reportComponents, maxDependencies, maxDepth, skipCyclicDepth, forbidden,
    detectOrphans, entryPoints] ← value.record?
      ["detect_cycles", "report_components", "max_dependencies_per_file", "max_dependency_depth",
        "skip_cyclic_depth", "forbidden_patterns", "detect_orphans", "entry_points"] | none
  return {
    detectCycles := ← Value.defaulted Value.bool? true detectCycles
    reportComponents := ← Value.defaulted Value.bool? false reportComponents
    maxDependencies := ← Value.optional Value.count? maxDependencies
    maxDepth := ← Value.optional Value.count? maxDepth
    skipCyclicDepth := ← Value.defaulted Value.bool? false skipCyclicDepth
    forbidden := ← Value.defaulted Value.texts? [] forbidden
    detectOrphans := ← Value.defaulted Value.bool? false detectOrphans
    entryPoints := ← Value.defaulted Value.texts? [] entryPoints }

/-- Reads the settings of a rule, which must be a table. -/
def RuleSettings.ofToml? (value : Value) : Option RuleSettings := do
  let fields ← value.fields?
  let options := fields.filter fun (key, _) => key ≠ "enabled" && key ≠ "severity"
  return {
    enabled := ← Value.optional Value.bool? (fields.get? "enabled")
    severity := ← Value.optional Severity.ofToml? (fields.get? "severity")
    options := ← Value.keepFields? options }

namespace Config

/-- Reads the settings of all rules. -/
def rulesOfToml? (value : Value) : Option (Assoc RuleSettings) := do
  (← value.fields?).mapM fun (name, settings) => do
    return (name, ← RuleSettings.ofToml? settings)

/-- Reads a configuration from a value. -/
def ofToml? (value : Value) : Option Config := do
  let [layers, properties, rules] ← value.record? ["layers", "properties", "rules"] | none
  return {
    layers := ← Value.defaulted (fun v => do (← v.items?).mapM Layer.ofToml?) [] layers
    properties := ← Value.defaulted Properties.ofToml? {} properties
    rules := ← Value.defaulted rulesOfToml? [] rules }

/-- Reads a configuration from text. -/
def parse? (text : String) : Option Config := do
  ofToml? (.table (← Toml.parse? text))

end Config

end LayerLint
