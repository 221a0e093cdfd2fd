import LayerLint.Command.Args
import LayerLint.Command.Input
import LayerLint.Command.NewConfig
import LayerLint.Command.RuleListing
import LayerLint.Figure.Dot
import LayerLint.Figure.Mermaid
import LayerLint.Report.Json

/-!
# Running commands

What a command prints, logs and writes, given what it can see of its surroundings.
-/

namespace LayerLint

/-! ## Commands -/

/-- The log of making the rules of a configuration. -/
def ruleSetLog (config : Config) : List LogEntry :=
  let cycles :=
    if config.properties.detectCycles then []
    else [LogEntry.debug "Cycle detection disabled in [properties]"]
  cycles ++ [.debug s!"Built {config.ruleSet.length} rules from configuration"]

/-- The names in a list with commas. -/
def splitNames (text : String) : List String :=
  (Text.splitOn ',' text.toList).map fun name => String.ofList (Text.trimChars name)

/-- The log of keeping the named rules: names of no rule, and rules that are not configured. -/
def selectionLog (kept : List Rule) (names : List String) : List LogEntry :=
  let isKnown := fun name => allRules.any (·.isCalled name)
  let isKept := fun name => kept.any (·.isCalled name)
  let unknown := names.filter fun name => !isKnown name
  let missing := names.filter fun name => isKnown name && !isKept name
  unknown.map (fun name => .warn s!"Unknown rule: {name}") ++
    missing.map fun name => .warn s!"Rule {name} is not enabled by the configuration"

/-- The rules to run, with what there is to log about them. -/
def chooseRules (config : Config) : Option String → List Rule × List LogEntry
  | none => (config.ruleSet, [])
  | some text =>
    let names := splitNames text
    let kept := selectRules config.ruleSet names
    (kept, selectionLog kept names)

/-- A report in a format. -/
def Report.print (report : Report) : ReportFormat → String
  | .text => report.text
  | .json => report.json ++ "\n"
  | .compact => report.compact
  | .pretty => report.diagnostics

/-- A figure in a format. -/
def Figure.print (figure : Figure) : GraphFormat → String
  | .dot => Figure.Dot.render figure
  | .mermaid => Figure.Mermaid.render Figure.Mermaid.defaultDirection figure
  | .mermaidMarkdown => Figure.Mermaid.renderMarkdown Figure.Mermaid.defaultDirection figure

/-- Checks a project; the report comes with its text. -/
def runCheck (world : World) (named : Option String) (manifest : String) (format : ReportFormat)
    (rules : Option String) : Run (Report × String) := do
  let (project, config) ← loadProject world manifest named
  Run.log (ruleSetLog config)
  let (rules, selection) := chooseRules config rules
  Run.log selection
  let analyzer ← createAnalyzer config rules
  Run.log [.info s!"Analyzing {manifest} with {rules.length} rules"]
  let scene := analyzer.prepare project
  let report := analyzer.reportOn scene
  Run.log (analyzer.log project scene report)
  return (report, report.print format)

/-- Draws a project. -/
def runGraph (world : World) (named : Option String) (manifest : String) (format : GraphFormat)
    (options : DrawOptions) : Run String := do
  let (project, config) ← loadProject world manifest named
  if let some name := options.onlyLayer then
    unless config.layers.any (·.name == name) do
      Run.log [.warn s!"Layer '{name}' is not declared; the graph will be empty"]
  let analyzer ← createAnalyzer config []
  let scene := analyzer.prepare project
  Run.log (scene.log project)
  Run.log [.info s!"Exporting {scene.graph.size} files and {scene.graph.edges.size} edges"]
  return (Figure.draw scene.graph scene.layers options).print format

/-! ## Outcomes -/

/-- What a command comes to. -/
structure Outcome where
  exit : Nat
  stdout : String := ""
  log : List LogEntry := []
  /-- The messages of a failure, the outermost first. -/
  errors : List String := []
  /-- The file to write in the working directory, with its text. -/
  writes : Option (String × String) := none
  deriving DecidableEq, Repr

namespace Outcome

/-- The log that is shown: details only when they are asked for. -/
def shown (verbose : Bool) (log : List LogEntry) : List LogEntry :=
  if verbose then log else log.filter (·.level ≠ .debug)

/-- The outcome of a run. -/
def ofRun {α : Type} (verbose : Bool) (run : Run α) (succeed : α → Outcome) : Outcome :=
  match run.run [] with
  | (.ok result, log) => { succeed result with log := shown verbose log }
  | (.error failure, log) => { exit := 1, log := shown verbose log, errors := failure.chain }

end Outcome

/-- The outcome of setting a configuration up. -/
def runInit (world : World) (force : Bool) : Outcome :=
  if world.isPresent newConfigName && !force then
    { exit := 1, errors := (Failure.configExists newConfigName).chain }
  else if world.isPresent newConfigName && !world.isFile newConfigName then
    { exit := 1, errors := (Failure.write .isDirectory).chain }
  else { exit := 0, stdout := initText, writes := some (newConfigName, newConfig) }

/-- The outcome of an invocation. -/
def runInvocation (world : World) (invocation : Invocation) : Outcome :=
  let named := invocation.config
  match invocation.command with
  | .check manifest format rules =>
    .ofRun invocation.verbose (runCheck world named manifest format rules) fun (report, text) =>
      { exit := if report.hasErrors then 1 else 0, stdout := text }
  | .graph manifest format options =>
    .ofRun invocation.verbose (runGraph world named manifest format options) fun text =>
      { exit := 0, stdout := text }
  | .listRules => { exit := 0, stdout := ruleListing }
  | .init force => runInit world force

/-- What is printed when the version is asked for. -/
def versionText : String := "archgraph 0.1.0\n"

/-- What is printed when help is asked for. -/
def helpText : String :=
  Text.unlines
    ["Architecture linter for import graphs: layers, cycles, depth and forbidden dependencies", "",
      "Usage: archgraph [OPTIONS] <COMMAND>", "", "Commands:",
      "  check       Run architecture checks", "  graph       Export the dependency graph",
      "  list-rules  List available rules", "  init        Initialize configuration file"]

/-- The outcome of a command line. -/
def runArgs (world : World) (args : List String) : Outcome :=
  match parseArgs args with
  | .run invocation => runInvocation world invocation
  | .version => { exit := 0, stdout := versionText }
  | .help => { exit := 0, stdout := helpText }
  | .misuse => { exit := 2 }

end LayerLint
