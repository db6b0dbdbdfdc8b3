import MetadataBlock.Report.Style
import MetadataBlock.Report.Summary

/-!
# Reports as lines of text
-/

namespace MetadataBlock.Report

/-- A level in its colour. -/
def levelText (color : Bool) : Level → Text
  | .error => Style.red.paint color "ERROR"
  | .warning => Style.yellow.paint color "WARNING"
  | .none => Style.green.paint color "none"

/-- The line of a violation. -/
def violationLine (color : Bool) (v : Violation) : Text :=
  let symbol :=
    if v.isError then Style.red.paint color "✗" else Style.yellow.paint color "⚠"
  "  " ++ symbol ++ " " ++ v.format

/-- The lines of one file, the last one empty. -/
def fileLines (color : Bool) (r : FileResult) : List Text :=
  let head := Style.cyan.paint color r.path
  match r.violations with
  | [] => [head, Style.green.paint color "  ✓ All checks passed", []]
  | violations =>
    [head, "A total of " ++ Text.ofNat violations.length ++ " lint(s) failed.",
      "Most severe level: " ++ levelText color r.level]
      ++ violations.map (violationLine color) ++ [[]]

/-- The lines of a summary. -/
def summaryLines (color : Bool) (s : Summary) : List Text :=
  [Style.bold.paint color "Summary:",
   "  Files checked: " ++ Text.ofNat s.filesChecked,
   "  Files with errors: " ++ Text.ofNat s.filesWithErrors,
   "  Files with warnings only: " ++ Text.ofNat s.filesWithWarnings,
   "  Total errors: " ++ Text.ofNat s.totalErrors,
   "  Total warnings: " ++ Text.ofNat s.totalWarnings]

/-- The lines of a run: file by file, then the summary. -/
def runLines (color : Bool) (results : List FileResult) (s : Summary) : List Text :=
  results.flatMap (fileLines color) ++ summaryLines color s

/-- A rule as it is listed. -/
structure RuleEntry where
  name : Text
  code : Text
  scope : Text
  severity : Severity
  description : Text

/-- The entry of a rule in a list. -/
def RuleEntry.of (r : RuleInfo) : RuleEntry :=
  ⟨r.name.text, r.code, r.scope.text, r.defaultSeverity, r.description⟩

/-- A severity in its colour, filled up to the longer of the two. -/
def severityColumn (color : Bool) : Severity → Text
  | .error => Style.red.paint color "error  "
  | .warning => Style.yellow.paint color "warning"

/-- The lines of a list of rules, in columns. -/
def ruleLines (color : Bool) (rules : List RuleEntry) : List Text :=
  let widest (column : RuleEntry → Text) : Nat :=
    rules.foldl (fun width r => max width (column r).length) 0
  let nameWidth := widest (·.name)
  let scopeWidth := widest (·.scope)
  rules.map fun r =>
    Style.bold.paint color r.code ++ "  " ++ Text.padEnd nameWidth r.name ++ "  "
      ++ Text.padEnd scopeWidth r.scope ++ "  " ++ severityColumn color r.severity ++ "  "
      ++ Style.dim.paint color r.description

/-- The lines of a trace that a verbosity lets through. -/
def traceLines (color : Bool) (verbosity : Nat) (trace : List TraceLine) : List Text :=
  (trace.filter fun t => t.level ≤ verbosity).map fun t => Style.dim.paint color t.message

end MetadataBlock.Report
