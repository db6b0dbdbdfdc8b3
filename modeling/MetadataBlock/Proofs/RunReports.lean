import MetadataBlock.Proofs.JsonDocument
import MetadataBlock.Proofs.StyledText
import MetadataBlock.Proofs.WorldRuns
import MetadataBlock.Report.Lines

/-!
# What a run prints about its end

A run that ends with an error prints one line about it, and a check that gets to its end
prints a report. As text both can be styled; as JSON each is one document.

- `TellsError`, `tellsError_fatalLine`: the line about an error; `message_inputRead`,
  `message_outputWrite`: two messages spelled out;
- `LevelName`, `FileObject`, `SummaryObject`: what a JSON report says of a level, of a file
  and of all files;
- `TellsResults`, `tellsResults_reportLines`: the lines of a report, which end in the counts
  of the summary.
-/

namespace MetadataBlock

/-! ## Errors -/

/-- A line about an error. As text it goes to the channel for errors; as JSON it is an object
that says first that there was no success, and goes where results go. -/
inductive TellsError (json color : Bool) (message : Text) (code : Number) : Channel × Text → Prop
  | text {line : Text} (htext : json = false) (hline : Paints color line message) :
    TellsError json color message code (.err, line)
  | json {line : Text} (hjson : json = true)
    (hline : Json.Spells (.object
      [("success", .bool false), ("error", .text message), ("code", .number code)]) line) :
    TellsError json color message code (.out, line)

/-- The line about an error tells its message. As JSON the whole line is one document, so
nothing else is printed with it. -/
theorem tellsError_fatalLine (json color : Bool) (e : FatalError) (code : Number) :
    TellsError json color e.message code (fatalLine json color e code) := by
  cases json with
  | true => exact .json rfl (Json.spells_jsonPretty (Report.fatalData e code))
  | false => exact .text rfl (paints_paint .red color e.message)

/-- What is said of an input that cannot be read. The reason comes from the host and stands at
the end as it is. -/
theorem message_inputRead (path reason : Text) :
    (FatalError.inputRead path reason).message
      = "Could not read input file '" ++ path ++ "': " ++ reason :=
  congrArg (· ++ reason) (Text.append_quoted_append "Could not read input file " path ": ")

/-- What is said of an output that cannot be written. -/
theorem message_outputWrite (path reason : Text) :
    (FatalError.outputWrite path reason).message
      = "Could not write output file '" ++ path ++ "': " ++ reason :=
  congrArg (· ++ reason) (Text.append_quoted_append "Could not write output file " path ": ")

/-! ## Results -/

/-- The word for a level. -/
inductive LevelName : Level → Text → Prop
  | none : LevelName .none "none"
  | warning : LevelName .warning "warning"
  | error : LevelName .error "error"

theorem levelName_text (l : Level) : LevelName l l.text := by
  cases l with
  | none => exact .none
  | warning => exact .warning
  | error => exact .error

/-- The object about a file. -/
def FileObject (r : FileResult) (d : Data) : Prop :=
  ∃ name, LevelName (mostSevere r.violations) name
    ∧ d = .object [("path", .text r.path), ("mostSevere", .text name),
      ("violations", .list (r.violations.map Report.violationData))]

/-- The object about all files. -/
def SummaryObject (s : Summary) (d : Data) : Prop :=
  ∃ name, LevelName s.mostSevere name
    ∧ d = .object [("filesChecked", .number s.filesChecked),
      ("filesWithErrors", .number s.filesWithErrors),
      ("filesWithWarnings", .number s.filesWithWarnings),
      ("totalErrors", .number s.totalErrors), ("totalWarnings", .number s.totalWarnings),
      ("mostSevere", .text name)]

/-- The lines of a report. As text the counts stand behind what is said of the files; as JSON
there is one line, an object that says first that there was success. -/
inductive TellsResults (o : RunOptions) (results : List FileResult) (s : Summary) :
    List (Channel × Text) → Prop
  | text {head : Text} (htext : o.json = false) (hhead : Paints o.color head "Summary:") :
    TellsResults o results s
      ((results.flatMap (Report.fileLines o.color)
        ++ [head,
          "  Files checked: " ++ Text.ofNat s.filesChecked,
          "  Files with errors: " ++ Text.ofNat s.filesWithErrors,
          "  Files with warnings only: " ++ Text.ofNat s.filesWithWarnings,
          "  Total errors: " ++ Text.ofNat s.totalErrors,
          "  Total warnings: " ++ Text.ofNat s.totalWarnings]).map (.out, ·))
  | json {files : List Data} {summary : Data} {line : Text} (hjson : o.json = true)
    (hfiles : List.Forall₂ FileObject results files) (hsummary : SummaryObject s summary)
    (hline : Json.Spells (.object [("success", .bool true),
      ("data", .object [("files", .list files), ("summary", summary)])]) line) :
    TellsResults o results s [(.out, line)]

/-- The lines that report the results of a run. -/
def RunOptions.reportLines (o : RunOptions) (results : List FileResult) (summary : Summary) :
    List (Channel × Text) :=
  if o.json then [(.out, (Report.runData results summary).jsonPretty)]
  else (Report.runLines o.color results summary).map (.out, ·)

/-- The object of a file names it, its worst level and all its violations, in order. -/
theorem fileObject_resultData (r : FileResult) : FileObject r (Report.resultData r) :=
  ⟨r.level.text, levelName_text r.level, rfl⟩

theorem summaryObject_toData (s : Summary) : SummaryObject s s.toData :=
  ⟨s.mostSevere.text, levelName_text s.mostSevere, rfl⟩

/-- The lines of a report tell the results. The file lines of a text report stay as they are
laid out; what is spelled is the summary behind them, and the whole of a JSON report. -/
theorem tellsResults_reportLines (o : RunOptions) (results : List FileResult) (s : Summary) :
    TellsResults o results s (o.reportLines results s) := by
  rw [RunOptions.reportLines]
  cases hjson : o.json with
  | true =>
    have hfiles : List.Forall₂ FileObject results (results.map Report.resultData) := by
      rw [List.forall₂_map_right_iff, List.forall₂_same]
      exact fun r _ => fileObject_resultData r
    exact .json hjson hfiles (summaryObject_toData s)
      (Json.spells_jsonPretty (Report.runData results s))
  | false => exact .text hjson (paints_paint .bold o.color "Summary:")

end MetadataBlock
