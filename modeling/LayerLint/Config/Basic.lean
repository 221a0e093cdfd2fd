import LayerLint.Layer
import LayerLint.Report.Violation
import LayerLint.Text.Blank
import LayerLint.Toml.Value

/-!
# Configuration

The declared layers, the properties to check, and the settings of single rules.
-/

namespace LayerLint

/-- Which properties of a project are checked. -/
structure Properties where
  detectCycles : Bool := true
  reportComponents : Bool := false
  maxDependencies : Option Nat := none
  maxDepth : Option Nat := none
  skipCyclicDepth : Bool := false
  forbidden : List String := []
  detectOrphans : Bool := false
  entryPoints : List String := []
  deriving DecidableEq, Repr

/-- The settings of one rule. -/
structure RuleSettings where
  enabled : Option Bool := none
  /-- The severity given to all violations of the rule. -/
  severity : Option Severity := none
  /-- What else is set for the rule. -/
  options : Assoc Toml.Value := []
  deriving Repr

/-- A configuration. -/
structure Config where
  layers : List Layer := []
  properties : Properties := {}
  /-- The settings of rules, by name. -/
  rules : Assoc RuleSettings := []
  deriving Repr

namespace RuleSettings

/-- An option that is a truth value, or a default. -/
def flag (settings : RuleSettings) (key : String) (default : Bool) : Bool :=
  ((settings.options.get? key).bind Toml.Value.bool?).getD default

/-- An option that counts something. -/
def count? (settings : RuleSettings) (key : String) : Option Nat :=
  (settings.options.get? key).bind Toml.Value.count?

/-- The texts in an option that is an array; other items do not count. -/
def texts (settings : RuleSettings) (key : String) : List String :=
  (((settings.options.get? key).bind Toml.Value.items?).getD []).filterMap Toml.Value.text?

end RuleSettings

namespace Config

/-- Whether a rule runs; rules do unless they are switched off. -/
def isEnabled (config : Config) (rule : String) : Bool :=
  ((config.rules.get? rule).bind RuleSettings.enabled).getD true

/-- The severity set for a rule. -/
def severityOf (config : Config) (rule : String) : Option Severity :=
  (config.rules.get? rule).bind RuleSettings.severity

end Config

/-! ## Validation -/

/-- What is wrong with declared layers. -/
inductive LayerFault where
  /-- The layer at this place has a blank name. -/
  | blankName (index : Nat)
  | blankPattern (layer : String)
  | repeatedName (layer : String)
  | unknownDependency (layer dependency : String)
  deriving DecidableEq, Repr

namespace LayerFault

/-- The fault in words. -/
def message : LayerFault → String
  | .blankName index => s!"config validation: layers[{index}]: empty layer name"
  | .blankPattern layer => s!"config validation: layer '{layer}': empty path pattern"
  | .repeatedName layer => s!"config validation: layer '{layer}': declared more than once"
  | .unknownDependency layer dependency =>
    s!"config validation: layer '{layer}': unknown dependency '{dependency}'"

end LayerFault

/-- The first fault of the layers from a place on, given the names in front of it. -/
def declarationFault? (earlier : List String) (index : Nat) : List Layer → Option LayerFault
  | [] => none
  | layer :: rest =>
    if Text.isBlankText layer.name then some (.blankName index)
    else if Text.isBlankText layer.pattern then some (.blankPattern layer.name)
    else if layer.name ∈ earlier then some (.repeatedName layer.name)
    else declarationFault? (layer.name :: earlier) (index + 1) rest

/-- The first dependency of a layer that names no layer. -/
def dependencyFault? (names : List String) (layer : Layer) : Option LayerFault :=
  (layer.dependsOn.find? fun name => name ≠ Layer.anyName ∧ name ∉ names).map
    (.unknownDependency layer.name)

/-- The first fault of declared layers: that of a declaration, else that of a dependency. -/
def layersFault? (layers : List Layer) : Option LayerFault :=
  match declarationFault? [] 0 layers with
  | some fault => some fault
  | none => layers.findSome? (dependencyFault? (layers.map Layer.name))

/-- Refuses a configuration whose layers have a fault. -/
def Config.validate (config : Config) : Except LayerFault Unit :=
  match layersFault? config.layers with
  | some fault => .error fault
  | none => .ok ()

end LayerLint
