import LayerLint.Config.Basic
import LayerLint.Rule.Forbidden
import LayerLint.Rule.LayerBoundaries
import LayerLint.Rule.MaxDependencies
import LayerLint.Rule.MaxDepth
import LayerLint.Rule.NoCycles
import LayerLint.Rule.Orphans

/-!
# The rules of a configuration

Properties decide which rules there are. The settings of a rule may override its limit and its
flags, and add to its patterns.
-/

namespace LayerLint

/-- Every rule, as it is listed without a configuration. -/
def allRules : List Rule :=
  [LayerBoundaries.rule .error, NoCycles.rule {}, MaxDependencies.rule { limit := 12 },
    MaxDepth.rule { limit := 8 }, Forbidden.rule { entries := [] }, Orphans.rule {}]

namespace Config

/-- A flag of a rule, by its settings or else by the properties. -/
def flagOf (config : Config) (rule key : String) (property : Bool) : Bool :=
  match config.rules.get? rule with
  | some settings => settings.flag key property
  | none => property

/-- The limit of a rule, by its settings or else by the properties. -/
def limitOf (config : Config) (rule : String) (property : Option Nat) : Option Nat :=
  ((config.rules.get? rule).bind (·.count? "max")).or property

/-- The texts of a rule, those of the properties first. -/
def textsOf (config : Config) (rule key : String) (property : List String) : List String :=
  property ++ ((config.rules.get? rule).map (·.texts key)).getD []

/-- The rule on cycles. -/
def cycleRule (config : Config) : List Rule :=
  let props := config.properties
  if props.detectCycles then
    [NoCycles.rule
      { reportComponents :=
          config.flagOf NoCycles.name "report_components" props.reportComponents }]
  else []

/-- The rule on the number of dependencies. -/
def dependenciesRule (config : Config) : List Rule :=
  match config.limitOf MaxDependencies.name config.properties.maxDependencies with
  | some limit => [MaxDependencies.rule { limit }]
  | none => []

/-- The rule on depth. -/
def depthRule (config : Config) : List Rule :=
  let props := config.properties
  match config.limitOf MaxDepth.name props.maxDepth with
  | some limit =>
    [MaxDepth.rule
      { limit, skipCyclic := config.flagOf MaxDepth.name "skip_cyclic" props.skipCyclicDepth }]
  | none => []

/-- The rule on forbidden dependencies. -/
def forbiddenRule (config : Config) : List Rule :=
  match config.textsOf Forbidden.name "patterns" config.properties.forbidden with
  | [] => []
  | entries => [Forbidden.rule { entries }]

/-- The rule on orphans, also when it is enabled by its settings alone. -/
def orphanRule (config : Config) : List Rule :=
  let props := config.properties
  let enabled := (config.rules.get? Orphans.name).bind RuleSettings.enabled
  if props.detectOrphans || enabled == some true then
    [Orphans.rule { entryPoints := config.textsOf Orphans.name "entry_points" props.entryPoints }]
  else []

/-- The rules that a configuration asks for. -/
def ruleSet (config : Config) : List Rule :=
  LayerBoundaries.rule .error ::
    (config.cycleRule ++ config.dependenciesRule ++ config.depthRule ++ config.forbiddenRule ++
      config.orphanRule)

end Config

/-- The rules that are called by one of the names. -/
def selectRules (rules : List Rule) (names : List String) : List Rule :=
  rules.filter fun rule => names.contains rule.name || names.contains rule.code

end LayerLint
