import LayerLint.Report.Violation

/-!
# Reports

The violations found in a project and the number of files looked at.
-/

namespace LayerLint

/-- What an analysis found. -/
structure Report where
  violations : List Violation := []
  filesChecked : Nat := 0
  deriving DecidableEq, Repr

namespace Report

/-- Whether a violation is an error. -/
def hasErrors (report : Report) : Bool :=
  report.violations.any (·.severity == .error)

/-- The violations of a rule. -/
def byRule (report : Report) (rule : String) : List Violation :=
  report.violations.filter (·.rule == rule)

/-- The number of violations of a severity. -/
def countOf (report : Report) (severity : Severity) : Nat :=
  report.violations.countP (·.severity == severity)

/-- Whether a violation is at least this grave. -/
def hasAtLeast (report : Report) (severity : Severity) : Bool :=
  report.violations.any (·.severity.atLeast severity)

/-- Adds a violation at the end. -/
def push (report : Report) (violation : Violation) : Report :=
  { report with violations := report.violations ++ [violation] }

/-- Adds another report. -/
def append (report other : Report) : Report :=
  { violations := report.violations ++ other.violations
    filesChecked := report.filesChecked + other.filesChecked }

/-! ## Texts -/

/-- The terminal colour of the summary: red for errors, yellow for warnings, else green. -/
def summaryColor (report : Report) : String :=
  if 0 < report.countOf .error then "\x1b[31m"
  else if 0 < report.countOf .warning then "\x1b[33m"
  else "\x1b[32m"

/-- The counts on one line. -/
def summary (report : Report) : String :=
  let errors := report.countOf .error
  let warnings := report.countOf .warning
  let infos := report.countOf .info
  s!"{report.summaryColor}Found {errors} error(s), {warnings} warning(s), {infos} info(s) in " ++
    s!"{report.filesChecked} file(s)\x1b[0m"

/-- Every violation in full, then the summary. -/
def text (report : Report) : String :=
  Text.unlines (report.violations.map Violation.full ++ [report.summary])

/-- One line for each violation. -/
def compact (report : Report) : String :=
  Text.unlines (report.violations.map Violation.brief)

/-- A diagnostic for each violation, then the summary. -/
def diagnostics (report : Report) : String :=
  Text.unlines (report.violations.flatMap Violation.diagnostic ++ [report.summary])

end Report

end LayerLint
