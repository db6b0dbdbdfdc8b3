import MetadataBlock.Data.Json
import MetadataBlock.Report.Summary

/-!
# Reports as JSON

A report is one object that says first whether the run succeeded.
-/

namespace MetadataBlock.Report

/-- The object of a success, with more fields. -/
def success (fields : List (Text × Data)) : Data :=
  .object (fields.foldl (fun fs f => Data.setField fs f.1 f.2) [("success", .bool true)])

/-- The object of a failure, with its message and more fields. -/
def failure (message : Text) (fields : List (Text × Data)) : Data :=
  .object (fields.foldl (fun fs f => Data.setField fs f.1 f.2)
    [("success", .bool false), ("error", .text message)])

/-- A violation as data. -/
def violationData (v : Violation) : Data :=
  let number (n : Option Nat) : Data := (n.map fun n => Data.number n).getD .absent
  .object
    [("severity", .text v.severity.text), ("rule", .text v.origin.text), ("message", .text v.message),
     ("line", number v.line), ("column", number v.column)]

/-- The report on a file, given its violations as data. -/
def fileData (path : Text) (level : Level) (violations : List Data) : Data :=
  .object
    [("path", .text path), ("mostSevere", .text level.text), ("violations", .list violations)]

/-- The result of a file as data. -/
def resultData (r : FileResult) : Data :=
  fileData r.path r.level (r.violations.map violationData)

/-- The report of a run, given the reports on its files. -/
def filesData (files : List Data) (summary : Summary) : Data :=
  success [("data", .object [("files", .list files), ("summary", summary.toData)])]

/-- The report of a run. -/
def runData (results : List FileResult) (summary : Summary) : Data :=
  filesData (results.map resultData) summary

/-- A rule as data. -/
def ruleData (r : RuleInfo) : Data :=
  .object
    [("name", .text r.name.text), ("code", .text r.code), ("scope", .text r.scope.text),
     ("defaultSeverity", .text r.defaultSeverity.text), ("description", .text r.description)]

/-- The report of the rules. -/
def rulesData (rules : List RuleInfo) : Data :=
  success [("data", .list (rules.map ruleData))]

/-- The report of an error that ended a run with an exit code. -/
def fatalData (e : FatalError) (code : Number) : Data :=
  failure e.message [("code", .number code)]

end MetadataBlock.Report
