import MetadataBlock.Host.Basic
import MetadataBlock.Report.Json
import MetadataBlock.Report.Lines
import MetadataBlock.Settings.Config
import MetadataBlock.Table.Writer
import MetadataBlock.Yaml.Reader

/-!
# Checking and converting files

`runCheck` lints files and reports, `runConvert` lints one file and writes it as a
table unless there were errors. All inputs are read before any of them is linted.
An error that ends a run is reported, and decides the exit code; a run passes on the
errors that it does not know, and has no exit code then.
-/

namespace MetadataBlock

/-- What a run is asked for besides its files. -/
structure RunOptions where
  configPath : Option Text := none
  settings : CommandLineSettings := {}
  verbosity : Nat := 0
  json : Bool := false
  color : Bool := false

/-- A file that was read. -/
structure SourceFile where
  path : Text
  source : Text

/-- The outcome of converting a file. -/
structure Conversion where
  result : FileResult
  outfile : Text
  written : Bool

/-- The settings of a run with what follows from them. -/
structure ResolvedSettings where
  config : LintConfig
  options : LintOptions

section

variable {m : Type → Type} [Monad m] [Host m]

/-! ## Settings -/

/-- Load a configuration file. Without a path the defaults hold. -/
def loadConfig (path : Option Text) : ExceptT FatalError m LintConfig := do
  match path with
  | none => .mk (pure (LintConfig.ofData (.object []) "configuration"))
  | some path =>
    match ← Host.readFile path with
    | .error f =>
      throw (.config ("Could not read configuration file " ++ Text.quoted path ++ ": " ++ f.message path))
    | .ok content =>
      Host.warnAbout content
      match Yaml.readData content with
      | .error reason =>
        throw (.config ("Could not parse configuration file " ++ Text.quoted path ++ ": " ++ reason))
      | .ok data => .mk (pure (LintConfig.ofData data ("configuration file " ++ Text.quoted path)))

/-- The settings of a configuration file and the command line. -/
def resolveSettings (path : Option Text) (settings : CommandLineSettings) :
    ExceptT FatalError m ResolvedSettings := do
  let file ← loadConfig path
  let config ← .mk (pure (file.withCommandLine settings))
  let options ← .mk (pure config.lintOptions)
  return ⟨config, options⟩

/-! ## Files -/

/-- Read files in order, up to the first one that cannot be read. -/
def loadFiles : List Text → ExceptT FatalError m (List SourceFile)
  | [] => pure []
  | path :: rest => do
    match ← Host.readFile path with
    | .error f => throw (.inputRead path (f.message path))
    | .ok source => return ⟨path, source⟩ :: (← loadFiles rest)

/-- Print the lines of a trace that the verbosity of a run lets through. -/
def printTrace (o : RunOptions) (trace : List TraceLine) : m Unit :=
  printLines .out (Report.traceLines o.color o.verbosity trace)

/-- Lint a file that was read. -/
def lintFile (o : RunOptions) (options : LintOptions) (f : SourceFile) :
    ExceptT FatalError m LintedSource := do
  printTrace o (traceSource f.path f.source options)
  let linted := lintSource f.path f.source options
  if linted.endless then throw .endless
  return linted

/-- Lint files that were read. -/
def lintFiles (o : RunOptions) (options : LintOptions) :
    List SourceFile → ExceptT FatalError m (List FileResult)
  | [] => pure []
  | f :: rest => do
    let linted ← lintFile o options f
    return linted.toFileResult :: (← lintFiles o options rest)

/-- Read files and lint them. -/
def checkFiles (o : RunOptions) (options : LintOptions) (paths : List Text) :
    ExceptT FatalError m (List FileResult) := do
  let files ← loadFiles paths
  lintFiles o options files

/-- Where a converted file goes if nothing else is asked for. -/
def defaultOutfile (path : Text) : Text :=
  Path.withExtension path ".tsv"

/-- Write a document as a table. -/
def writeTable (document : Document) (longestRow : Nat) (outfile : Text) :
    ExceptT FatalError m Unit := do
  match Table.render document longestRow with
  | .error e => throw (.outputWrite outfile e.message)
  | .ok text =>
    match ← Host.writeFile outfile text with
    | .error f => throw (.outputWrite outfile (f.message outfile))
    | .ok _ => pure ()

/-- Lint a file and write it as a table unless errors were found. The input is never
overwritten. -/
def convertFile (o : RunOptions) (options : LintOptions) (path outfile : Text) :
    ExceptT FatalError m Conversion := do
  let directory ← Host.directory
  if Path.resolve directory outfile = Path.resolve directory path then
    throw (.outputWrite outfile "refusing to overwrite the input file")
  match ← Host.readFile path with
  | .error f => throw (.inputRead path (f.message path))
  | .ok source =>
    let linted ← lintFile o options ⟨path, source⟩
    match linted.document with
    | none => return ⟨linted.toFileResult, outfile, false⟩
    | some document =>
      if mostSevere linted.violations = .error then
        return ⟨linted.toFileResult, outfile, false⟩
      else
        printTrace o [⟨1, "Writing output file to: " ++ outfile⟩]
        writeTable document linted.longestRow outfile
        return ⟨linted.toFileResult, outfile, true⟩

/-! ## Runs -/

/-- Report an error that ended a run, or pass it on if it has no exit code. -/
def reportFatal (json color : Bool) (e : FatalError) : ExceptT FatalError m Number := do
  match e.exitCode? with
  | none => throw e
  | some code =>
    if json then Host.print .out (Report.fatalData e code).jsonPretty
    else Host.print .err (Style.red.paint color e.message)
    return code

/-- Report the results of a run. -/
def reportRun (o : RunOptions) (results : List FileResult) : m Unit :=
  let summary := Summary.of results
  if o.json then Host.print .out (Report.runData results summary).jsonPretty
  else printLines .out (Report.runLines o.color results summary)

/-- A trace would spoil a JSON report. -/
def RunOptions.quietIfJson (o : RunOptions) : RunOptions :=
  if o.json then { o with verbosity := 0 } else o

/-- Lint files and report what was found. -/
def checkAndReport (files : List Text) (o : RunOptions) : ExceptT FatalError m Number := do
  let settings ← resolveSettings o.configPath o.settings
  let results ← checkFiles o settings.options files
  reportRun o results
  return (Summary.of results).exitCode settings.config.warningExitCode

/-- Lint files and report, also an error that ends the run. The result is the exit code. -/
def runCheck (files : List Text) (o : RunOptions) : ExceptT FatalError m Number :=
  let o := o.quietIfJson
  tryCatch (checkAndReport files o) (reportFatal o.json o.color)

/-- Report a conversion. -/
def reportConversion (o : RunOptions) (c : Conversion) : m Unit := do
  if !c.result.violations.isEmpty then printLines .out (Report.fileLines o.color c.result)
  if c.written then Host.print .out (Style.green.paint o.color ("Wrote " ++ c.outfile))
  else Host.print .err (Style.red.paint o.color "Errors detected. Could not convert to TSV.")

/-- Convert a file and report what became of it. -/
def convertAndReport (file outfile : Text) (o : RunOptions) : ExceptT FatalError m Number := do
  let settings ← resolveSettings o.configPath o.settings
  let c ← convertFile o settings.options file outfile
  reportConversion o c
  return (Summary.of [c.result]).exitCode settings.config.warningExitCode

/-- Convert a file and report, also an error that ends the run. The result is the exit
code. -/
def runConvert (file : Text) (outfile : Option Text) (o : RunOptions) :
    ExceptT FatalError m Number :=
  tryCatch (convertAndReport file (outfile.getD (defaultOutfile file)) o)
    (reportFatal false o.color)

/-- List the rules of the catalog. -/
def listRules (json color : Bool) : m Unit :=
  if json then Host.print .out (Report.rulesData Catalog.infos).jsonPretty
  else printLines .out (Report.ruleLines color (Catalog.infos.map .of))

end

end MetadataBlock
