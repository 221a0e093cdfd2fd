import LayerLint.Rule.Basic
import LayerLint.Text.Blank

/-!
# Rule: forbidden dependencies

An entry `source -> target` forbids files that match `source` to depend on files that match
`target`. An entry that cannot be read is reported, and the others still count.
-/

namespace LayerLint.Forbidden

def name : String := "forbidden-dependencies"

def code : String := "AG005"

/-! ## Entries -/

/-- A pair of patterns. -/
structure Entry where
  source : String
  target : String
  deriving DecidableEq, Repr

/-- What keeps an entry from being read. -/
inductive EntryError where
  /-- The arrow is not there exactly once. -/
  | arrow
  /-- A side is blank. -/
  | emptySide
  deriving DecidableEq, Repr

/-- The pieces between the arrows of a text. -/
def splitArrows : List Char → List (List Char)
  | [] => [[]]
  | '-' :: '>' :: rest => [] :: splitArrows rest
  | c :: rest => Text.consHead c (splitArrows rest)

/-- Reads an entry. -/
def Entry.parse (text : String) : Except EntryError Entry :=
  match splitArrows text.toList with
  | [left, right] =>
    let source := Text.trimChars left
    let target := Text.trimChars right
    if source.isEmpty || target.isEmpty then .error .emptySide
    else .ok { source := String.ofList source, target := String.ofList target }
  | _ => .error .arrow

/-! ## Checking -/

/-- How the rule is set up. -/
structure Settings where
  /-- The entries as they were given. -/
  entries : List String
  matcher : Matcher := Pattern.isMatch
  severity : Severity := .error

/-- The violation of an entry that cannot be read. -/
def entryViolation (severity : Severity) (text : String) : EntryError → Violation
  | .arrow =>
    { code, rule := name, severity
      path := Violation.configurationPath
      message := s!"invalid forbidden pattern syntax: '{text}'"
      context := some
        "Forbidden pattern must be in the form 'source_pattern -> target_pattern'"
      suggestions :=
        ["Ensure the pattern contains exactly one '->' separating source and target patterns",
          "Example: 'internal/** -> external/**'",
          "Check the [properties] table of your archgraph.toml"] }
  | .emptySide =>
    { code, rule := name, severity
      path := Violation.configurationPath
      message := s!"forbidden pattern has empty source or target: '{text}'"
      context := some "Both source and target patterns must be non-empty"
      suggestions :=
        ["Ensure both patterns before and after '->' are non-empty",
          "Example: 'internal/** -> external/**'"] }

/-- The violation of an edge that an entry forbids. -/
def edgeViolation (severity : Severity) (entry : Entry) (importing imported : String) :
    Violation :=
  { code, rule := name, severity
    path := importing
    message := s!"forbidden dependency from '{entry.source}' to '{entry.target}'"
    context := some s!"file '{importing}' imports '{imported}'"
    suggestions :=
      ["Restructure code to avoid this dependency",
        "Use dependency inversion or abstraction",
        s!"Files matching '{entry.source}' should not depend on '{entry.target}'"] }

/-- The violations of an entry, in the order of the importing files. -/
def checkEntry (settings : Settings) (g : Graph) (entry : Entry) : List Violation :=
  let sources := g.nodes.filter fun node => settings.matcher (g.path node) entry.source
  sources.flatMap fun node =>
    let targets := (g.deps node).filter fun target => settings.matcher (g.path target) entry.target
    targets.map fun target => edgeViolation settings.severity entry (g.path node) (g.path target)

/-- What the rule reports. -/
def check (settings : Settings) (scene : Scene) : List Violation :=
  settings.entries.flatMap fun text =>
    match Entry.parse text with
    | .ok entry => checkEntry settings scene.graph entry
    | .error error => [entryViolation settings.severity text error]

/-- The rule. -/
def rule (settings : Settings) : Rule :=
  { name, code
    severity := settings.severity
    description := "Forbids imports between configured path patterns"
    check := check settings }

end LayerLint.Forbidden
