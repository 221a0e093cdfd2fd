import LayerLint.Text.Split

/-!
# Violations

What a rule has to say about a file, with the texts it is shown as.
-/

namespace LayerLint

/-- How grave a violation is. -/
inductive Severity where
  | info
  | warning
  | error
  deriving DecidableEq, Repr

namespace Severity

/-- The name of a severity. -/
def name : Severity → String
  | .info => "info"
  | .warning => "warning"
  | .error => "error"

/-- The severity of a name. -/
def ofName? : String → Option Severity
  | "info" => some .info
  | "warning" => some .warning
  | "error" => some .error
  | _ => none

/-- Severities from the slightest up. -/
def rank : Severity → Nat
  | .info => 0
  | .warning => 1
  | .error => 2

/-- Whether a severity is at least another. -/
def atLeast (severity least : Severity) : Bool :=
  least.rank ≤ severity.rank

/-- The sign in front of a diagnostic. -/
def mark : Severity → String
  | .info => "☞"
  | .warning => "⚠"
  | .error => "×"

end Severity

/-- A violation of a rule. -/
structure Violation where
  /-- Code of the rule. -/
  code : String
  /-- Name of the rule. -/
  rule : String
  severity : Severity
  /-- The file it is about. -/
  path : String
  message : String
  context : Option String := none
  expected : Option String := none
  actual : Option String := none
  suggestions : List String := []
  deriving DecidableEq, Repr

namespace Violation

/-- The path of violations that are about the configuration and not about a file. -/
def configurationPath : String := "configuration"

/-- Whether the violation is about the configuration. -/
def isConfiguration (v : Violation) : Bool :=
  v.path == configurationPath

/-- Adds the context. -/
def withContext (v : Violation) (context : String) : Violation :=
  { v with context := some context }

/-- Adds what was expected and what was found. -/
def withExpectedActual (v : Violation) (expected actual : String) : Violation :=
  { v with expected := some expected, actual := some actual }

/-- Adds suggestions after those it has. -/
def withSuggestions (v : Violation) (suggestions : List String) : Violation :=
  { v with suggestions := v.suggestions ++ suggestions }

/-- The violation on one line. -/
def brief (v : Violation) : String :=
  let context := (v.context.map fun text => s!" ({text})").getD ""
  s!"{v.path}: {v.severity.name} [{v.code}] {v.message}{context}"

/-- The lines on what was expected and found, when both are known. -/
def comparison (v : Violation) : List String :=
  match v.expected, v.actual with
  | some expected, some actual => [s!"  = expected: {expected}", s!"  = actual: {actual}"]
  | _, _ => []

/-- The violation in full, over several lines. -/
def full (v : Violation) : String :=
  Text.unlines
    ([s!"{v.code} {v.rule} at {v.path}", s!"  {v.severity.name}: {v.message}"] ++ v.comparison ++
      (v.context.map fun text => s!"  = context: {text}").toList ++
      v.suggestions.map fun text => s!"  = help: {text}")

/-! ## Diagnostics -/

/-- The text of the diagnostic. -/
def headline (v : Violation) : String :=
  s!"{v.path}: {v.message}"

/-- The code of the diagnostic. -/
def qualifiedCode (v : Violation) : String :=
  s!"{v.rule}::{v.code}"

/-- The help of the diagnostic: the context and the suggestions, each on a line. -/
def help (v : Violation) : Option String :=
  match v.context.toList ++ v.suggestions with
  | [] => none
  | lines => some (Text.join "\n" lines)

/-- The lines of a text without the blanks at their ends, the first behind a label and the others
behind a margin. -/
def labelled (label margin text : String) : List String :=
  let trimmed := (Text.splitOn '\n' text.toList).map fun line =>
    String.ofList (line.reverse.dropWhile (· == ' ')).reverse
  match trimmed with
  | [] => []
  | first :: rest => (label ++ first) :: rest.map (margin ++ ·)

/-- The diagnostic as lines. -/
def diagnostic (v : Violation) : List String :=
  [v.qualifiedCode, ""] ++ labelled s!"  {v.severity.mark} " "  │ " v.headline ++
    (v.help.map (labelled "  help: " "        ")).getD [] ++ [""]

end Violation

end LayerLint
