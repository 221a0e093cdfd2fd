import LayerLint.Command.Option
import LayerLint.Figure.Basic

/-!
# Command lines

Which command with which settings a list of arguments spells. What follows a subcommand belongs to
it.
-/

namespace LayerLint

/-- How a report is printed. -/
inductive ReportFormat where
  | text
  | json
  | compact
  | pretty
  deriving DecidableEq, Repr

/-- How a graph is printed. -/
inductive GraphFormat where
  | dot
  | mermaid
  | mermaidMarkdown
  deriving DecidableEq, Repr

/-- What to do. -/
inductive Command where
  | check (manifest : String) (format : ReportFormat) (rules : Option String)
  | graph (manifest : String) (format : GraphFormat) (options : DrawOptions)
  | listRules
  | init (force : Bool)
  deriving DecidableEq, Repr

/-- The manifest that a command reads. -/
def Command.manifest? : Command → Option String
  | .check manifest .. | .graph manifest .. => some manifest
  | .listRules | .init _ => none

/-- A command with the settings that all commands share. -/
structure Invocation where
  verbose : Bool
  config : Option String
  command : Command
  deriving DecidableEq, Repr

/-- What arguments ask for. -/
inductive Request where
  | run (invocation : Invocation)
  | version
  | help
  /-- The arguments make no sense. -/
  | misuse
  deriving DecidableEq, Repr

/-! ## Options of commands -/

/-- A flag without a letter. -/
def longFlag (long : String) : OptionSpec :=
  { long, short := none, kind := .flag }

/-- An option without a letter. -/
def longValue (long : String) (kind : ValueKind) : OptionSpec :=
  { long, short := none, kind := .value kind }

/-- The options of all commands. -/
def sharedOptions : List OptionSpec :=
  [{ long := "verbose", short := some 'v', kind := .flag },
    { long := "config", short := some 'c', kind := .value .path },
    { long := "help", short := some 'h', kind := .showHelp }]

/-- The options in front of a subcommand. -/
def topOptions : List OptionSpec :=
  sharedOptions ++ [{ long := "version", short := some 'V', kind := .showVersion }]

/-- The option that names the manifest. -/
def manifestOption : OptionSpec :=
  { long := "manifest", short := some 'm', kind := .value .path }

/-- The option that chooses a format. -/
def formatOption (choices : List String) : OptionSpec :=
  { long := "format", short := some 'f', kind := .value (.oneOf choices) }

/-- The options of a subcommand. -/
def subcommandOptions : String → List OptionSpec
  | "check" =>
    sharedOptions ++
      [manifestOption, formatOption ["text", "json", "compact", "pretty"],
        longValue "rules" .anyText]
  | "graph" =>
    sharedOptions ++
      [manifestOption, formatOption ["dot", "mermaid", "mermaid-md"], longValue "layer" .anyText,
        longValue "max-depth" .count, longFlag "no-layers", longFlag "no-cycles",
        longFlag "no-violations", longFlag "simplify", longValue "title" .anyText]
  | "init" => sharedOptions ++ [longFlag "force"]
  | _ => sharedOptions

/-- The subcommands. -/
def subcommandNames : List String :=
  ["check", "graph", "list-rules", "init", "help"]

/-! ## Reading -/

/-- The manifest that is read when none is named. -/
def defaultManifest : String := "archgraph.json"

/-- The format of a report. -/
def ReportFormat.ofName : String → ReportFormat
  | "json" => .json
  | "compact" => .compact
  | "pretty" => .pretty
  | _ => .text

/-- The format of a graph. -/
def GraphFormat.ofName : String → GraphFormat
  | "mermaid" => .mermaid
  | "mermaid-md" => .mermaidMarkdown
  | _ => .dot

/-- What to draw, by the options given. -/
def drawOptionsOf (given : Given) : DrawOptions :=
  let default : DrawOptions := {}
  { title := (given.get? "title").getD default.title
    showLayers := !given.has "no-layers"
    showCycles := !given.has "no-cycles"
    highlightViolations := !given.has "no-violations"
    onlyLayer := given.get? "layer"
    maxDepth := (given.get? "max-depth").bind parseCount?
    shortLabels := given.has "simplify" }

/-- The command of a subcommand with its options. -/
def commandOf (name : String) (given : Given) : Option Command :=
  let manifest := (given.get? "manifest").getD defaultManifest
  let format := (given.get? "format").getD ""
  match name with
  | "check" => some (.check manifest (.ofName format) (given.get? "rules"))
  | "graph" => some (.graph manifest (.ofName format) (drawOptionsOf given))
  | "list-rules" => some .listRules
  | "init" => some (.init (given.has "force"))
  | _ => none

/-- What the arguments behind the word for help ask for: nothing more, or one subcommand. -/
def parseHelp : List String → Request
  | [] => .help
  | [name] => if subcommandNames.contains name then .help else .misuse
  | _ => .misuse

/-- What arguments ask for. Of a shared option given on both sides of the subcommand, the inner one
counts. -/
def parseArgs (args : List String) : Request :=
  match readArgs topOptions subcommandNames [] none args with
  | .version => .version
  | .help => .help
  | .misuse | .finished _ => .misuse
  | .subcommand outer name rest =>
    if name = "help" then parseHelp rest
    else
      match readArgs (subcommandOptions name) [] [] none rest with
      | .finished inner =>
        match commandOf name inner with
        | some command =>
          .run
            { verbose := outer.has "verbose" || inner.has "verbose"
              config := (inner.get? "config").or (outer.get? "config")
              command }
        | none => .misuse
      | .help => .help
      | _ => .misuse

end LayerLint
