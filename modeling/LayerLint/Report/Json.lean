import LayerLint.Json.Printer
import LayerLint.Report.Basic

/-!
# Reports as JSON

Texts that a violation lacks, and an empty list of suggestions, are left out.
-/

namespace LayerLint

/-- Reads a severity: its name, or an object with the name as its only field and null in it. -/
def Severity.ofJson? : Json → Option Severity
  | .str name => ofName? name
  | .obj [(name, .null)] => ofName? name
  | _ => none

namespace Violation

/-- A field that is written when there is a text for it. -/
def optionalField (name : String) (text : Option String) : List (String × Json) :=
  (text.map fun text => (name, Json.str text)).toList

/-- The violation as a value. -/
def toJson (v : Violation) : Json :=
  .obj
    ([("code", .str v.code), ("rule", .str v.rule), ("severity", .str v.severity.name),
        ("path", .str v.path), ("message", .str v.message)] ++
      optionalField "context" v.context ++ optionalField "expected" v.expected ++
      optionalField "actual" v.actual ++
      if v.suggestions.isEmpty then [] else [("suggestions", .arr (v.suggestions.map .str))])

/-- The names of a violation's fields. -/
def fieldNames : List String :=
  ["code", "rule", "severity", "path", "message", "context", "expected", "actual", "suggestions"]

/-- Reads a violation. -/
def ofJson? (value : Json) : Option Violation := do
  let [code, rule, severity, path, message, context, expected, actual, suggestions] ←
    value.record? fieldNames | none
  return {
    code := ← code.bind Json.text?
    rule := ← rule.bind Json.text?
    severity := ← severity.bind Severity.ofJson?
    path := ← path.bind Json.text?
    message := ← message.bind Json.text?
    context := ← Json.defaulted (Json.nullable Json.text?) none context
    expected := ← Json.defaulted (Json.nullable Json.text?) none expected
    actual := ← Json.defaulted (Json.nullable Json.text?) none actual
    suggestions := ← Json.defaulted Json.texts? [] suggestions }

end Violation

namespace Report

/-- The report as a value. -/
def toJson (report : Report) : Json :=
  .obj
    [("violations", .arr (report.violations.map Violation.toJson)),
      ("files_checked", .ofNat report.filesChecked)]

/-- Reads a report. -/
def ofJson? (value : Json) : Option Report := do
  let [violations, filesChecked] ← value.record? ["violations", "files_checked"] | none
  return {
    violations := ← (← violations.bind Json.items?).mapM Violation.ofJson?
    filesChecked := ← filesChecked.bind Json.count? }

/-- The report as JSON text. -/
def json (report : Report) : String :=
  report.toJson.pretty

end Report

end LayerLint
