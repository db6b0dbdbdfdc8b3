import MetadataBlock.Proofs.FilePlaces
import MetadataBlock.Proofs.RunReports
import MetadataBlock.Proofs.RunSummary
import MetadataBlock.Proofs.WrittenTable

/-!
# How converting a file ends

Converting a file ends in one of six ways with an exit code, and only the last two can
write: the settings cannot be resolved, the output would replace the input, the input cannot
be read, it has errors, the table cannot be written, or it is written. An input with an alias
inside the node that it refers to may not be read to an end; the run passes on an error then.

- `exists_render_of_errorFree`: a document without errors can be written as a table,
  unless the rule on nested values is skipped or only warns;
- `ConvertExit`, `ConvertEnd`: the ways to end, with the exit code or the error that is passed
  on, and with the world that is left;
- `FilesLeft`, `ConvertExit.filesLeft`: what a conversion leaves of the files, and what its
  last line says about it (`FilesLeft.replaced_of_says`, `FilesLeft.kept_of_not_says`);
- `runConvert_exit`: every run ends in one of these ways, changes no file but the output, and
  says so exactly if it wrote all of it;
- `runConvert_selfNested`: a run without an exit code, and one with a write that breaks off and
  leaves a part of the output.
-/

namespace MetadataBlock

/-! ## Writing a document without errors -/

/-- A rule on nested values that is neither skipped nor demoted reports errors, by its own
severity or by one that was set. -/
theorem resolve_noSubstructures {overrides : Overrides}
    (hskip : overrides.get? .noSubstructures ≠ some .skip)
    (hwarning : overrides.get? .noSubstructures ≠ some (.severity .warning)) :
    RecordRules.noSubstructures.resolve overrides = .active .error := by
  have hname : RecordRules.noSubstructures.name = .noSubstructures := rfl
  rw [RuleInfo.resolve, hname]
  cases hget : overrides.get? .noSubstructures with
  | none => rfl
  | some o =>
    cases o with
    | skip => exact absurd hget hskip
    | severity severity =>
      cases severity with
      | warning => exact absurd hget hwarning
      | error => rfl

/-- With that rule the records of a document without errors hold scalars only. No other rule is
needed for this, so overrides of the others do not matter. -/
theorem renderable_of_errorFree {document : Document} {options : LintOptions}
    (hskip : options.overrides.get? .noSubstructures ≠ some .skip)
    (hwarning : options.overrides.get? .noSubstructures ≠ some (.severity .warning))
    (h : ErrorFree (lintDocument document options)) :
    ∀ s ∈ document.sections, ∀ r ∈ s.block.records, Table.Renderable r := by
  intro s hs r hr
  have hsections := (errorFree_append.mp h).2
  have hrecords := (errorFree_append.mp (errorFree_flatMap.mp hsections s hs)).2
  have hrecord : ErrorFree (lintRecord s.keyword r options) := errorFree_flatMap.mp hrecords r hr
  have hmem : RecordRules.noSubstructures ∈ Catalog.recordRules :=
    List.mem_cons_of_mem _ (List.mem_cons_of_mem _ List.mem_cons_self)
  have hrule := errorFree_flatMap.mp hrecord _ hmem
  rw [Rule.apply, resolve_noSubstructures hskip hwarning] at hrule
  have hnil := (Catalog.lawful_recordRules _ hmem).run_error_eq_nil hrule
  exact Table.renderable_of_scalars (RecordRules.noSubstructures_run_eq_nil_iff.mp hnil)

/-- A source without errors can be written as a table, unless the rule on nested values
is skipped or only warns. -/
theorem exists_render_of_errorFree {path source : Text} {options : LintOptions} {document : Document}
    (hdocument : (lintSource path source options).document = some document)
    (herrors : ErrorFree (lintSource path source options).violations)
    (hskip : options.overrides.get? .noSubstructures ≠ some .skip)
    (hwarning : options.overrides.get? .noSubstructures ≠ some (.severity .warning))
    (wanted : Nat) : ∃ text, Table.render document wanted = .ok text := by
  rw [lintSource_eq (readAt_of_lintSource hdocument), errorFree_append] at herrors
  exact ⟨_, Table.render_eq_ok (renderable_of_errorFree hskip hwarning herrors.2) wanted⟩

/-! ## The ways to end -/

/-- Why a table is not written, and the world that is left: a nested value that the lint let
pass, or a write that fails. -/
inductive WriteFailure (w : World) (out : Text) (overrides : Overrides)
    (table : Except Table.NestedValue Text) : Text → World → Prop
  | nested {e : Table.NestedValue} (render : table = .error e)
      (passed : overrides.get? .noSubstructures = some .skip
        ∨ overrides.get? .noSubstructures = some (.severity .warning)) :
      WriteFailure w out overrides table e.message w
  | failed {text : Text} {f : FileFault} {after : World} (render : table = .ok text)
      (write : w.write out text = (.error f, after)) :
      WriteFailure w out overrides table (f.message out) after

/-- A conversion that gets as far as linting its input: there are settings, the output is
not the input, and the input can be read. -/
structure Converts (w : World) (file out : Text) (o : RunOptions) (settings : ResolvedSettings)
    (source : Text) : Prop where
  settled : w.settings o = .ok settings
  apart : Path.resolve w.directory out ≠ Path.resolve w.directory file
  readable : w.read file = .ok source

namespace RunOptions

/-- The lines that a conversion prints about its input, if anything was found. -/
def inputLines (o : RunOptions) (r : FileResult) : List (Channel × Text) :=
  if r.violations.isEmpty then [] else (Report.fileLines o.color r).map (.out, ·)

/-- The trace of a conversion that goes on to write. -/
def convertTrace (o : RunOptions) (file source out : Text) (options : LintOptions) :
    List (Channel × Text) :=
  o.traceLines (traceSource file source options)
    ++ o.traceLines [⟨1, "Writing output file to: " ++ out⟩]

end RunOptions

/-- How converting a file ends if it has an exit code: with which one, and in which world. -/
inductive ConvertExit (w : World) (file out : Text) (o : RunOptions) : Number → World → Prop
  /-- The settings cannot be resolved. -/
  | unsettled {e : FatalError} {line : Text} (settings : w.settings o = .error e)
      (message : e.message ≠ []) (tells : Paints o.color line e.message) :
      ConvertExit w file out o 3 ((w.settled o.configPath).printing [(.err, line)])
  /-- The output would replace the input. -/
  | samePlace {settings : ResolvedSettings} {line : Text} (settled : w.settings o = .ok settings)
      (same : Path.resolve w.directory out = Path.resolve w.directory file)
      (tells : Paints o.color line
        ("Could not write output file '" ++ out ++ "': " ++ "refusing to overwrite the input file")) :
      ConvertExit w file out o 2 ((w.settled o.configPath).printing [(.err, line)])
  /-- The input cannot be read. -/
  | unreadable {settings : ResolvedSettings} {f : FileFault} {line : Text}
      (settled : w.settings o = .ok settings)
      (apart : Path.resolve w.directory out ≠ Path.resolve w.directory file)
      (fault : w.read file = .error f)
      (tells : Paints o.color line
        ("Could not read input file '" ++ file ++ "': " ++ f.message file)) :
      ConvertExit w file out o 2 ((w.settled o.configPath).printing [(.err, line)])
  /-- The input has no document or an error. -/
  | rejected {settings : ResolvedSettings} {source line : Text} {linted : LintedSource}
      (converts : Converts w file out o settings source)
      (linted_eq : linted = lintSource file source settings.options)
      (ends : linted.endless = false)
      (reason : linted.document = none ∨ ∃ v ∈ linted.violations, v.isError = true)
      (tells : Paints o.color line "Errors detected. Could not convert to TSV.") :
      ConvertExit w file out o 1
        ((w.settled o.configPath).printing
          (o.traceLines (traceSource file source settings.options)
            ++ o.inputLines linted.toFileResult ++ [(.err, line)]))
  /-- The input has a document and no error, but its table cannot be written. -/
  | unwritten {settings : ResolvedSettings} {source line : Text} {linted : LintedSource}
      {document : Document} {reason : Text} {after : World}
      (converts : Converts w file out o settings source)
      (linted_eq : linted = lintSource file source settings.options)
      (document_eq : linted.document = some document) (errors : ErrorFree linted.violations)
      (failure : WriteFailure (w.settled o.configPath) out settings.options.overrides
        (Table.render document linted.longestRow) reason after)
      (tells : Paints o.color line ("Could not write output file '" ++ out ++ "': " ++ reason)) :
      ConvertExit w file out o 2
        (after.printing (o.convertTrace file source out settings.options ++ [(.err, line)]))
  /-- The table of the document is written. -/
  | written {settings : ResolvedSettings} {source line : Text} {linted : LintedSource}
      {document : Document} {text : Text} {after : World}
      (converts : Converts w file out o settings source)
      (linted_eq : linted = lintSource file source settings.options)
      (document_eq : linted.document = some document) (errors : ErrorFree linted.violations)
      (render : Table.render document linted.longestRow = .ok text)
      (write : (w.settled o.configPath).write out text = (.ok (), after))
      (filled : (w.settled o.configPath).FilledAt out text after)
      (tells : Paints o.color line ("Wrote " ++ out)) :
      ConvertExit w file out o
        (if linted.violations.any (·.isWarning) then settings.config.warningExitCode else 0)
        (after.printing (o.convertTrace file source out settings.options
          ++ o.inputLines linted.toFileResult ++ [(.out, line)]))

/-- How converting a file ends: with an exit code, or with an error that is passed on. -/
inductive ConvertEnd (w : World) (file out : Text) (o : RunOptions) :
    Except FatalError Number → World → Prop
  | exit {code : Number} {after : World} (exit : ConvertExit w file out o code after) :
      ConvertEnd w file out o (.ok code) after
  /-- The input is not read to an end, which an alias inside the node that it refers to is
  needed for. Nothing but the trace is printed. -/
  | endless {settings : ResolvedSettings} {source : Text}
      (converts : Converts w file out o settings source)
      (endless : (lintSource file source settings.options).endless = true)
      (nested : aliasesPointBack file source = false) :
      ConvertEnd w file out o (.error (.unexpected "RangeError" "Maximum call stack size exceeded"))
        ((w.settled o.configPath).printing
          (o.traceLines (traceSource file source settings.options)))

/-! ## Steps of a conversion -/

section

variable {w : World} (o : RunOptions) (options : LintOptions) {file out source : Text}

/-- The paths are compared before anything is read. -/
theorem outcome_convertFile_same (h : Path.resolve w.directory out = Path.resolve w.directory file) :
    w.outcome (convertFile o options file out)
      = (.error (.outputWrite out "refusing to overwrite the input file"), w) := by
  rw [convertFile, outcome_bind_ok outcome_directory, if_pos h]
  rfl

theorem outcome_convertFile_unreadable
    (h : Path.resolve w.directory out ≠ Path.resolve w.directory file) {f : FileFault}
    (hfault : w.read file = .error f) :
    w.outcome (convertFile o options file out)
      = (.error (.inputRead file (f.message file)), w) := by
  rw [convertFile, outcome_bind_ok outcome_directory, if_neg h]
  simp only
  rw [outcome_bind_ok (outcome_readFile file), hfault]
  rfl

/-- An input that is not read to an end ends the run behind its trace, before the output is
looked at. -/
theorem outcome_convertFile_endless
    (h : Path.resolve w.directory out ≠ Path.resolve w.directory file)
    (hread : w.read file = .ok source) (hendless : (lintSource file source options).endless = true) :
    w.outcome (convertFile o options file out)
      = (.error .endless, w.printing (o.traceLines (traceSource file source options))) := by
  rw [convertFile, outcome_bind_ok outcome_directory, if_neg h]
  simp only
  rw [outcome_bind_ok (outcome_readFile file), hread]
  simp only
  exact outcome_bind_error (outcome_lintFile_endless o options hendless)

/-- An input that is read to an end is linted first; what is done with it depends on what was
found. -/
theorem outcome_convertFile_read
    (h : Path.resolve w.directory out ≠ Path.resolve w.directory file)
    (hread : w.read file = .ok source) {linted : LintedSource}
    (hlinted : linted = lintSource file source options) (hends : linted.endless = false) :
    w.outcome (convertFile o options file out)
      = (w.printing (o.traceLines (traceSource file source options))).outcome
        (match linted.document with
          | none => pure ⟨linted.toFileResult, out, false⟩
          | some document =>
            if mostSevere linted.violations = .error then
              pure ⟨linted.toFileResult, out, false⟩
            else do
              printTrace o [⟨1, "Writing output file to: " ++ out⟩]
              writeTable document linted.longestRow out
              return ⟨linted.toFileResult, out, true⟩) := by
  subst hlinted
  rw [convertFile, outcome_bind_ok outcome_directory, if_neg h]
  simp only
  rw [outcome_bind_ok (outcome_readFile file), hread]
  simp only
  exact outcome_bind_ok (outcome_lintFile o options hends)

/-- An input without a document or with errors is not written. -/
theorem outcome_convertFile_rejected
    (h : Path.resolve w.directory out ≠ Path.resolve w.directory file)
    (hread : w.read file = .ok source) {linted : LintedSource}
    (hlinted : linted = lintSource file source options) (hends : linted.endless = false)
    (hreason : linted.document = none ∨ ∃ v ∈ linted.violations, v.isError = true) :
    w.outcome (convertFile o options file out)
      = (.ok ⟨linted.toFileResult, out, false⟩,
          w.printing (o.traceLines (traceSource file source options))) := by
  rw [outcome_convertFile_read o options h hread hlinted hends]
  cases hdocument : linted.document with
  | none => rfl
  | some document =>
    have herror : mostSevere linted.violations = .error := by
      rw [hdocument] at hreason
      exact mostSevere_eq_error_iff.mpr (hreason.resolve_left (Option.some_ne_none document))
    simp only
    rw [if_pos herror]
    rfl

/-- An input with a document and without errors is written. What is left of the run is the
table and the report, and the trace is printed before both. -/
theorem outcome_convertFile_accepted
    (h : Path.resolve w.directory out ≠ Path.resolve w.directory file)
    (hread : w.read file = .ok source) {linted : LintedSource}
    (hlinted : linted = lintSource file source options) {document : Document}
    (hdocument : linted.document = some document) (herrors : ErrorFree linted.violations) :
    w.outcome (convertFile o options file out)
      = (w.printing (o.convertTrace file source out options)).outcome (do
          writeTable document linted.longestRow out
          return ⟨linted.toFileResult, out, true⟩) := by
  have hends : linted.endless = false := by
    rw [hlinted] at hdocument ⊢
    exact endless_of_document hdocument
  rw [outcome_convertFile_read o options h hread hlinted hends, hdocument]
  simp only
  rw [if_neg (errorFree_iff_mostSevere.mp herrors), outcome_bind_ok (outcome_printTrace o _),
    World.printing_printing]
  rfl

/-- A table that is written to the world that a run has printed to. Printing and writing do not
get in each other's way, so the lines may be put behind the write. -/
theorem outcome_writeTable_ok {document : Document} {wanted : Nat} {text : Text} {after : World}
    {lines : List (Channel × Text)} (hrender : Table.render document wanted = .ok text)
    (hwrite : w.write out text = (.ok (), after)) :
    (w.printing lines).outcome (writeTable document wanted out)
      = (.ok (), after.printing lines) := by
  rw [writeTable, hrender]
  simp only
  rw [outcome_bind_ok (outcome_writeFile out text), World.write_printing, hwrite]
  rfl

/-- A failure of writing is one error, with its reason, in the world that the write left. -/
theorem outcome_writeTable_error {document : Document} {wanted : Nat} {overrides : Overrides}
    {reason : Text} {after : World} {lines : List (Channel × Text)}
    (h : WriteFailure w out overrides (Table.render document wanted) reason after) :
    (w.printing lines).outcome (writeTable document wanted out)
      = (.error (.outputWrite out reason), after.printing lines) := by
  cases h with
  | nested hrender hpassed =>
    rw [writeTable, hrender]
    rfl
  | @failed text f after hrender hwrite =>
    rw [writeTable, hrender]
    simp only
    rw [outcome_bind_ok (outcome_writeFile out text), World.write_printing, hwrite]
    rfl

/-- The last line of a conversion that gets to its end. -/
def lastLine (color : Bool) (c : Conversion) : Channel × Text :=
  if c.written then (.out, Style.green.paint color ("Wrote " ++ c.outfile))
  else (.err, Style.red.paint color "Errors detected. Could not convert to TSV.")

/-- Reporting ends without an error, and its last line says what came of the table. -/
theorem outcome_reportConversion (c : Conversion) :
    w.outcome (reportConversion o c)
      = (.ok (), w.printing (o.inputLines c.result ++ [lastLine o.color c])) := by
  have hlast : (w.printing (o.inputLines c.result)).outcome
        (if c.written then Host.print .out (Style.green.paint o.color ("Wrote " ++ c.outfile))
        else Host.print .err (Style.red.paint o.color "Errors detected. Could not convert to TSV."))
      = (.ok (), w.printing (o.inputLines c.result ++ [lastLine o.color c])) := by
    rw [← World.printing_printing, lastLine]
    cases c.written with
    | true => rfl
    | false => rfl
  rw [← hlast, reportConversion, RunOptions.inputLines]
  cases c.result.violations.isEmpty with
  | true =>
    rw [if_pos rfl, World.printing_nil]
    rfl
  | false =>
    rw [if_neg Bool.false_ne_true]
    exact outcome_bind_ok (outcome_printLines .out _)

end

/-- The table of an input without errors is written, or there is a reason why not. A
document that cannot be rendered has a nested value, which the rule on nested values has let
pass then. -/
theorem writeFailure_or_written {options : LintOptions} {file source : Text}
    {linted : LintedSource} {document : Document} (w : World) (out : Text) (wanted : Nat)
    (hlinted : linted = lintSource file source options)
    (hdocument : linted.document = some document) (herrors : ErrorFree linted.violations) :
    (∃ reason after,
        WriteFailure w out options.overrides (Table.render document wanted) reason after)
      ∨ ∃ text after, Table.render document wanted = .ok text
        ∧ w.write out text = (.ok (), after) := by
  cases hrender : Table.render document wanted with
  | error e =>
    refine .inl ⟨e.message, w, .nested rfl ?_⟩
    -- a rule at severity error would have reported the nested value
    subst hlinted
    by_contra hpassed
    rw [not_or] at hpassed
    obtain ⟨text, htext⟩ :=
      exists_render_of_errorFree hdocument herrors hpassed.1 hpassed.2 wanted
    rw [hrender] at htext
    cases htext
  | ok text =>
    rcases hwrite : w.write out text with ⟨f | _, after⟩
    · exact .inl ⟨f.message out, after, .failed rfl hwrite⟩
    · exact .inr ⟨text, after, rfl, hwrite⟩

/-! ## Runs -/

/-- The exit code of a conversion follows from the violations of its input. -/
theorem exitCode_singleton (r : FileResult) (warningExitCode : Number) :
    (Summary.of [r]).exitCode warningExitCode = exitCodeOf r.violations warningExitCode := by
  rw [exitCode_summary, allViolations, List.flatMap_singleton]

/-- A conversion with its handler ends in one of the ways. -/
def EndsIn (w : World) (file out : Text) (o : RunOptions) : Prop :=
  ∃ result after,
    w.outcome (tryCatch (convertAndReport file out o) (reportFatal false o.color))
        = (result, after)
      ∧ ConvertEnd w file out o result after

section

variable {w : World} {file out : Text} {o : RunOptions}

/-- An error with an exit code ends a run with that code and one line. A conversion is not
reported as JSON, so the line goes to the channel for errors. -/
theorem exists_line_of_error {e : FatalError} {code : Number} {message : Text} {after : World}
    (h : w.outcome (convertAndReport file out o) = (.error e, after))
    (hcode : e.exitCode? = some code) (hmessage : e.message = message) :
    ∃ line, Paints o.color line message
      ∧ w.outcome (tryCatch (convertAndReport file out o) (reportFatal false o.color))
        = (.ok code, after.printing [(.err, line)]) := by
  refine ⟨Style.red.paint o.color message, paints_paint .red o.color message, ?_⟩
  rw [outcome_tryCatch_error h, outcome_reportFatal _ _ hcode, ← hmessage]
  rfl

/-- Without settings a run ends before it looks at its files. -/
theorem endsIn_unsettled {e : FatalError} (h : w.settings o = .error e) : EndsIn w file out o := by
  have hresolve := outcome_resolveSettings w o
  rw [h] at hresolve
  have hrun : w.outcome (convertAndReport file out o) = (.error e, w.settled o.configPath) := by
    rw [convertAndReport, outcome_bind_error hresolve]
  have habout := aboutSettings_of_settings h
  obtain ⟨line, htells, hend⟩ := exists_line_of_error hrun habout.exitCode? rfl
  exact ⟨.ok 3, _, hend, .exit (.unsettled h habout.message htells)⟩

section

variable {settings : ResolvedSettings}

/-- Once there are settings, a run goes on in the world that looking for them left. -/
theorem outcome_convertAndReport (h : w.settings o = .ok settings) :
    w.outcome (convertAndReport file out o) = (w.settled o.configPath).outcome (do
      let c ← convertFile o settings.options file out
      reportConversion o c
      return (Summary.of [c.result]).exitCode settings.config.warningExitCode) := by
  have hresolve := outcome_resolveSettings w o
  rw [h] at hresolve
  rw [convertAndReport, outcome_bind_ok hresolve]

theorem endsIn_samePlace (h : w.settings o = .ok settings)
    (hsame : Path.resolve w.directory out = Path.resolve w.directory file) :
    EndsIn w file out o := by
  have hconvert : (w.settled o.configPath).outcome (convertFile o settings.options file out)
      = (.error (.outputWrite out "refusing to overwrite the input file"),
        w.settled o.configPath) := outcome_convertFile_same o settings.options hsame
  have hrun := (outcome_convertAndReport h).trans (outcome_bind_error hconvert)
  obtain ⟨line, htells, hend⟩ := exists_line_of_error hrun rfl (message_outputWrite _ _)
  exact ⟨.ok 2, _, hend, .exit (.samePlace h hsame htells)⟩

theorem endsIn_unreadable (h : w.settings o = .ok settings)
    (hapart : Path.resolve w.directory out ≠ Path.resolve w.directory file) {f : FileFault}
    (hfault : w.read file = .error f) : EndsIn w file out o := by
  have hread : (w.settled o.configPath).read file = .error f := by rw [World.read_settled, hfault]
  have hconvert :=
    outcome_convertFile_unreadable (w := w.settled o.configPath) o settings.options hapart hread
  have hrun := (outcome_convertAndReport h).trans (outcome_bind_error hconvert)
  obtain ⟨line, htells, hend⟩ := exists_line_of_error hrun rfl (message_inputRead _ _)
  exact ⟨.ok 2, _, hend, .exit (.unreadable h hapart hfault htells)⟩

variable {source : Text} {linted : LintedSource}

/-- The input can still be read in the world that looking for settings left. -/
theorem Converts.read_settled (h : Converts w file out o settings source) :
    (w.settled o.configPath).read file = .ok source := by
  rw [World.read_settled, h.readable]

/-- The error is none that a run reports, so it is passed on. -/
theorem endsIn_endless (h : Converts w file out o settings source)
    (hendless : (lintSource file source settings.options).endless = true) :
    EndsIn w file out o := by
  have hconvert := outcome_convertFile_endless (w := w.settled o.configPath) o settings.options
    h.apart h.read_settled hendless
  have hrun := (outcome_convertAndReport h.settled).trans (outcome_bind_error hconvert)
  refine ⟨_, _, ?_, .endless h hendless (not_aliasesPointBack_of_endless hendless)⟩
  rw [outcome_tryCatch_error hrun]
  exact outcome_reportFatal_passedOn false o.color rfl

/-- The exit code comes from the violations, so a missing document has to be one of them. -/
theorem endsIn_rejected (h : Converts w file out o settings source)
    (hlinted : linted = lintSource file source settings.options)
    (hends : linted.endless = false)
    (hreason : linted.document = none ∨ ∃ v ∈ linted.violations, v.isError = true) :
    EndsIn w file out o := by
  have herror : ∃ v ∈ linted.violations, v.isError = true := by
    rcases hreason with hnone | herror
    · rw [hlinted] at hnone hends ⊢
      exact exists_error_of_no_document hnone hends
    · exact herror
  have hconvert := outcome_convertFile_rejected (w := w.settled o.configPath) o settings.options
    h.apart h.read_settled hlinted hends hreason
  have hrun : w.outcome (convertAndReport file out o) = _ := outcome_convertAndReport h.settled
  rw [outcome_bind_ok hconvert, outcome_bind_ok (outcome_reportConversion o _), outcome_pure,
    World.printing_printing, exitCode_singleton, exitCodeOf,
    if_pos (List.any_eq_true.mpr herror), ← List.append_assoc] at hrun
  exact ⟨.ok 1, _, outcome_tryCatch_ok hrun,
    .exit (.rejected h hlinted hends hreason (paints_paint .red o.color _))⟩

theorem endsIn_accepted (h : Converts w file out o settings source)
    (hlinted : linted = lintSource file source settings.options) {document : Document}
    (hdocument : linted.document = some document) (herrors : ErrorFree linted.violations) :
    EndsIn w file out o := by
  have hconvert := outcome_convertFile_accepted (w := w.settled o.configPath) o settings.options
    h.apart h.read_settled hlinted hdocument herrors
  have hrun : w.outcome (convertAndReport file out o) = _ := outcome_convertAndReport h.settled
  -- the table is written, or the failure to write it ends the run
  rcases writeFailure_or_written (w.settled o.configPath) out linted.longestRow hlinted hdocument
    herrors with ⟨reason, after, hfailure⟩ | ⟨text, after, hrender, hwrite⟩
  · rw [outcome_bind_error (outcome_writeTable_error hfailure)] at hconvert
    rw [outcome_bind_error hconvert] at hrun
    obtain ⟨line, htells, hend⟩ := exists_line_of_error hrun rfl (message_outputWrite _ _)
    rw [World.printing_printing] at hend
    exact ⟨.ok 2, _, hend, .exit (.unwritten h hlinted hdocument herrors hfailure htells)⟩
  · rw [outcome_bind_ok (outcome_writeTable_ok hrender hwrite)] at hconvert
    rw [outcome_bind_ok hconvert, outcome_bind_ok (outcome_reportConversion o _), outcome_pure,
      World.printing_printing, exitCode_singleton, exitCodeOf_of_errorFree herrors,
      ← List.append_assoc] at hrun
    have hfilled := (World.filledAt_of_write hwrite).1
    have hline := paints_paint .green o.color ("Wrote " ++ out)
    exact ⟨_, _, outcome_tryCatch_ok hrun,
      .exit (.written h hlinted hdocument herrors hrender hwrite hfilled hline)⟩

end

/-- Every run ends in one of the ways. The cases are the questions that a run asks one after
the other. -/
theorem endsIn_any (w : World) (file out : Text) (o : RunOptions) : EndsIn w file out o := by
  cases hsettings : w.settings o with
  | error e => exact endsIn_unsettled hsettings
  | ok settings =>
    by_cases hsame : Path.resolve w.directory out = Path.resolve w.directory file
    · exact endsIn_samePlace hsettings hsame
    cases hread : w.read file with
    | error f => exact endsIn_unreadable hsettings hsame hread
    | ok source =>
      have hconverts : Converts w file out o settings source := ⟨hsettings, hsame, hread⟩
      cases hendless : (lintSource file source settings.options).endless with
      | true => exact endsIn_endless hconverts hendless
      | false =>
        cases hdocument : (lintSource file source settings.options).document with
        | none => exact endsIn_rejected hconverts rfl hendless (.inl hdocument)
        | some document =>
          by_cases herrors : ErrorFree (lintSource file source settings.options).violations
          · exact endsIn_accepted hconverts rfl hdocument herrors
          · have herror : ∃ v ∈ (lintSource file source settings.options).violations,
                v.isError = true := by
              rwa [errorFree_iff_mostSevere, not_not, mostSevere_eq_error_iff] at herrors
            exact endsIn_rejected hconverts rfl hendless (.inr herror)

end

/-! ## What is left -/

/-- A run has an exit code, and its last line says that a file was written. -/
def SaysWrote (color : Bool) (out : Text) (result : Except FatalError Number) (after : World) :
    Prop :=
  (∃ code, result = .ok code)
    ∧ ∃ line, after.printed.getLast? = some (.out, line) ∧ Paints color line ("Wrote " ++ out)

/-- What a conversion leaves of the files, with its last line. -/
inductive FilesLeft (w : World) (file out : Text) (o : RunOptions)
    (result : Except FatalError Number) (after : World) : Prop
  /-- No file is opened for writing. -/
  | kept (lines : List (Channel × Text)) {line : Text}
      (after_eq : after = (w.settled o.configPath).printing (lines ++ [(.err, line)]))
  /-- An error is passed on before any file is opened for writing. -/
  | passedOn {e : FatalError} (lines : List (Channel × Text)) (result_eq : result = .error e)
      (after_eq : after = (w.settled o.configPath).printing lines)
  /-- The output is opened, and the write breaks off. -/
  | brokenOff {source left line : Text} {f : FileFault} {filled : World}
      {lines : List (Channel × Text)}
      (apart : Path.resolve w.directory out ≠ Path.resolve w.directory file)
      (readable : w.read file = .ok source)
      (fault : w.writeFault (Path.resolve w.directory out) = some ⟨f, some left⟩)
      (filledAt : (w.settled o.configPath).FilledAt out left filled)
      (written : filled.written = w.written)
      (after_eq : after = filled.printing (lines ++ [(.err, line)]))
  /-- The output holds the whole table, and the last line says so. -/
  | replaced {source text line : Text} {filled : World} {lines : List (Channel × Text)}
      (apart : Path.resolve w.directory out ≠ Path.resolve w.directory file)
      (readable : w.read file = .ok source)
      (filledAt : (w.settled o.configPath).FilledAt out text filled)
      (written : filled.written = w.written ++ [(out, text)])
      (code : ∃ code, result = .ok code) (tells : Paints o.color line ("Wrote " ++ out))
      (after_eq : after = filled.printing (lines ++ [(.out, line)]))

section

variable {w after : World} {file out : Text} {o : RunOptions} {result : Except FatalError Number}

/-- Only the last two ways to end write: of those the one may break off, and the other does
not. A nested value is found before the output is opened. -/
theorem ConvertExit.filesLeft {code : Number} (h : ConvertExit w file out o code after) :
    FilesLeft w file out o (.ok code) after := by
  cases h with
  | unsettled _ _ _ => exact .kept [] rfl
  | samePlace _ _ _ => exact .kept [] rfl
  | unreadable _ _ _ _ => exact .kept [] rfl
  | rejected _ _ _ _ _ => exact .kept _ rfl
  | unwritten converts _ _ _ failure _ =>
    cases failure with
    | nested _ _ => exact .kept _ rfl
    | @failed text f after _ write =>
      have hend := World.writeEnd_write (w.settled o.configPath) out text
      rw [write] at hend
      cases hend with
      | refused => exact .kept _ rfl
      | brokenOff fault filled written =>
        exact .brokenOff converts.apart converts.readable fault filled written rfl
  | written converts _ _ _ _ write filled tells =>
    have hwritten := (World.filledAt_of_write write).2
    exact .replaced converts.apart converts.readable filled hwritten ⟨_, rfl⟩ tells rfl

/-- A run that passes an error on has written nothing. -/
theorem ConvertEnd.filesLeft (h : ConvertEnd w file out o result after) :
    FilesLeft w file out o result after := by
  cases h with
  | exit hexit => exact hexit.filesLeft
  | endless _ _ _ => exact .passedOn _ rfl rfl

/-- The files that are left are those that the run found, or those with the output filled,
which is not the input then. -/
theorem FilesLeft.kept_or_filled (h : FilesLeft w file out o result after) :
    (∃ lines, after = (w.settled o.configPath).printing lines)
      ∨ Path.resolve w.directory out ≠ Path.resolve w.directory file
        ∧ (∃ source, w.read file = .ok source)
        ∧ ∃ text filled lines, (w.settled o.configPath).FilledAt out text filled
          ∧ after = filled.printing lines := by
  cases h with
  | kept lines after_eq => exact .inl ⟨_, after_eq⟩
  | passedOn lines result_eq after_eq => exact .inl ⟨_, after_eq⟩
  | brokenOff apart readable fault filledAt written after_eq =>
    exact .inr ⟨apart, ⟨_, readable⟩, _, _, _, filledAt, after_eq⟩
  | replaced apart readable filledAt written code tells after_eq =>
    exact .inr ⟨apart, ⟨_, readable⟩, _, _, _, filledAt, after_eq⟩

/-- The input can be read as before, whatever could be read there. -/
theorem FilesLeft.read_input (h : FilesLeft w file out o result after) :
    after.read file = w.read file := by
  rcases h.kept_or_filled with
    ⟨lines, rfl⟩ | ⟨hapart, ⟨source, hread⟩, text, filled, lines, hfilled, rfl⟩
  · rw [World.read_printing, World.read_settled]
  · rw [World.read_printing, hread]
    refine hfilled.read hapart ?_
    rw [World.read_settled, hread]

/-- Every place but that of the output has what it had. -/
theorem FilesLeft.entry?_of_ne (h : FilesLeft w file out o result after) {place : List Text}
    (hplace : place ≠ Path.resolve w.directory out) : after.entry? place = w.entry? place := by
  rcases h.kept_or_filled with ⟨lines, rfl⟩ | ⟨-, -, text, filled, lines, hfilled, rfl⟩
  · rfl
  · exact hfilled.others place hplace

/-- The place of the input has what it had. -/
theorem FilesLeft.entry?_input (h : FilesLeft w file out o result after) :
    after.entry? (Path.resolve w.directory file) = w.entry? (Path.resolve w.directory file) := by
  rcases h.kept_or_filled with ⟨lines, rfl⟩ | ⟨hapart, -, text, filled, lines, hfilled, rfl⟩
  · rfl
  · exact hfilled.others _ hapart.symm

/-- A line on the channel for errors does not say that a file was written. -/
theorem not_saysWrote_error (base : World) (color : Bool) (lines : List (Channel × Text))
    (line : Text) : ¬ SaysWrote color out result (base.printing (lines ++ [(.err, line)])) := by
  rintro ⟨-, said, hlast, -⟩
  rw [World.printed_printing, ← List.append_assoc, List.getLast?_concat] at hlast
  cases hlast

/-- If the last line says that the output was written, one write replaced it. -/
theorem FilesLeft.replaced_of_says (h : FilesLeft w file out o result after)
    (htold : SaysWrote o.color out result after) :
    ∃ text, after.written = w.written ++ [(out, text)]
      ∧ after.entry? (Path.resolve w.directory out) = some (.file text) := by
  cases h with
  | kept lines after_eq =>
    subst after_eq
    exact absurd htold (not_saysWrote_error _ _ _ _)
  | passedOn lines result_eq _ =>
    obtain ⟨⟨code, hcode⟩, -⟩ := htold
    rw [result_eq] at hcode
    cases hcode
  | brokenOff _ _ _ _ _ after_eq =>
    subst after_eq
    exact absurd htold (not_saysWrote_error _ _ _ _)
  | replaced _ _ filledAt written _ _ after_eq =>
    subst after_eq
    exact ⟨_, written, filledAt.entry⟩

/-- If it does not, no write was carried out, and the files are those that the run found
unless a write broke off. -/
theorem FilesLeft.kept_of_not_says (h : FilesLeft w file out o result after)
    (htold : ¬ SaysWrote o.color out result after) :
    after.written = w.written ∧ ((∀ place, after.entry? place = w.entry? place)
      ∨ ∃ f left, w.writeFault (Path.resolve w.directory out) = some ⟨f, some left⟩
        ∧ after.entry? (Path.resolve w.directory out) = some (.file left)) := by
  cases h with
  | kept lines after_eq =>
    subst after_eq
    exact ⟨rfl, .inl fun _ => rfl⟩
  | passedOn lines _ after_eq =>
    subst after_eq
    exact ⟨rfl, .inl fun _ => rfl⟩
  | brokenOff _ _ fault filledAt written after_eq =>
    subst after_eq
    exact ⟨written, .inr ⟨_, _, fault, filledAt.entry⟩⟩
  | replaced _ _ _ _ code tells after_eq =>
    subst after_eq
    refine absurd ⟨code, _, ?_, tells⟩ htold
    rw [World.printed_printing, ← List.append_assoc, List.getLast?_concat]

/-- Converting a file ends in one of six ways with an exit code, or passes on an error, for
which an alias inside the node that it refers to is needed; a nested value keeps the table from
being written only if the rule on nested values is skipped or demoted. The input is never
changed, and no file but the output ever changes. If the last line of the run says that the
output was written, one write has replaced it; otherwise no write was carried out, and the
files are what they were, unless a write broke off and left something else in the output. -/
theorem runConvert_exit (w : World) (file : Text) (outfile : Option Text) (o : RunOptions) :
    let out := outfile.getD (defaultOutfile file)
    ∃ result after, w.outcome (runConvert file outfile o) = (result, after)
      ∧ ConvertEnd w file out o result after
      ∧ after.read file = w.read file
      ∧ after.entry? (Path.resolve w.directory file) = w.entry? (Path.resolve w.directory file)
      ∧ (∀ place, place ≠ Path.resolve w.directory out → after.entry? place = w.entry? place)
      ∧ (SaysWrote o.color out result after → ∃ text, after.written = w.written ++ [(out, text)]
          ∧ after.entry? (Path.resolve w.directory out) = some (.file text))
      ∧ (¬ SaysWrote o.color out result after → after.written = w.written
          ∧ ((∀ place, after.entry? place = w.entry? place)
            ∨ ∃ f left, w.writeFault (Path.resolve w.directory out) = some ⟨f, some left⟩
              ∧ after.entry? (Path.resolve w.directory out) = some (.file left))) := by
  intro out
  obtain ⟨result, after, hrun, hend⟩ := endsIn_any w file out o
  have hleft := hend.filesLeft
  exact ⟨result, after, hrun, hend, hleft.read_input, hleft.entry?_input,
    fun _ => hleft.entry?_of_ne, hleft.replaced_of_says, hleft.kept_of_not_says⟩

end

/-- An input that can be converted, and a disk that is full after one unit. -/
def fullDisk : World where
  entries := [(["a.yml"], .file "metadataBlock: &a []\ndatasetField: *a\n"), (["a.tsv"], .file "old")]
  writeFault _ := some ⟨.other "no space left on device", some "#"⟩

/-- An input with an alias inside the node that it refers to. -/
def selfNested : World where
  entries := [(["a.yml"], .file "a: &a [*a]\n")]

/-- Converting an input that refers to itself has no exit code and prints nothing; the error
is passed on. A write that breaks off ends a run with the exit code for files, and leaves
something else in the output. -/
theorem runConvert_selfNested :
    (selfNested.outcome (runConvert "a.yml" none {})).1
        = .error (.unexpected "RangeError" "Maximum call stack size exceeded")
      ∧ (selfNested.outcome (runConvert "a.yml" none {})).2.printed = []
      ∧ (fullDisk.outcome (runConvert "a.yml" none {})).1 = .ok 2
      ∧ fullDisk.entry? ["a.tsv"] = some (.file "old")
      ∧ World.entry? (fullDisk.outcome (runConvert "a.yml" none {})).2 ["a.tsv"]
        = some (.file "#") := by
  -- the sections have to be listed in a way that can be computed
  simp only [runConvert, convertAndReport, convertFile, lintFile, lintSource, validate, lintDocument,
    traceSource, traceValidation, traceDocument, writeTable, Table.render, Table.ofDocument,
    sections_eq]
  decide +kernel

end MetadataBlock
