import MetadataBlock.Lint.Source
import MetadataBlock.Number.Total
import MetadataBlock.Settings.FatalError

/-!
# Summaries

The counts over all files of a run, and the exit code they lead to.
-/

namespace MetadataBlock

/-- The counts of a run. A file with errors does not count among those with
warnings. -/
structure Summary where
  filesChecked : Nat
  filesWithErrors : Nat
  filesWithWarnings : Nat
  totalErrors : Nat
  totalWarnings : Nat
  mostSevere : Level
  deriving DecidableEq

namespace FileResult

def errorCount (r : FileResult) : Nat :=
  (r.violations.filter (·.isError)).length

def warningCount (r : FileResult) : Nat :=
  (r.violations.filter (·.isWarning)).length

def level (r : FileResult) : Level :=
  mostSevere r.violations

end FileResult

namespace Summary

/-- The counts over results. -/
def of (results : List FileResult) : Summary where
  filesChecked := results.length
  filesWithErrors := (results.filter fun r => 0 < r.errorCount).length
  filesWithWarnings := (results.filter fun r => 0 < r.warningCount && r.errorCount == 0).length
  totalErrors := total (results.map (·.errorCount))
  totalWarnings := total (results.map (·.warningCount))
  mostSevere := results.foldl (fun worst r => worst.worse r.level) .none

/-- The exit code of a run that ended with a level. -/
def exitCode (s : Summary) (warningExitCode : Number) : Number :=
  match s.mostSevere with
  | .error => ExitCode.violations
  | .warning => warningExitCode
  | .none => ExitCode.success

/-- The counts as data. -/
def toData (s : Summary) : Data :=
  let count (n : Nat) : Data := .number n
  .object
    [("filesChecked", count s.filesChecked), ("filesWithErrors", count s.filesWithErrors),
     ("filesWithWarnings", count s.filesWithWarnings), ("totalErrors", count s.totalErrors),
     ("totalWarnings", count s.totalWarnings), ("mostSevere", .text s.mostSevere.text)]

end Summary

end MetadataBlock
