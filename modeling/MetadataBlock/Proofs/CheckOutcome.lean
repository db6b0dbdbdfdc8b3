import MetadataBlock.Proofs.RunReports
import MetadataBlock.Proofs.RunSummary

/-!
# How checking files ends

Checking files ends in one of three ways with an exit code: the settings cannot be resolved,
an input cannot be read, or all files are linted and reported. Only the last way reports on a
file, and what it reports agrees with the violations that were found. An input with an alias
inside the node that it refers to may not be read to an end; the run passes on an error then,
and reports nothing.

- `Announced`, `announced_traceSource`: every step is traced at a positive level, so a
  quiet run prints none;
- `CheckExit`, `CheckEnd`: the ways to end, with the exit code or the error that is passed on,
  and with the world that is left;
- `Checkable`, `CheckExit.error_or_report`: what checking needs, and what it prints with it
  and without it;
- `runCheck_exit`: every run ends in one of these ways, and a JSON report is the only line;
- `runCheck_selfReference`: a run without an exit code, and one on whose configuration file the
  parser remarks besides.
-/

namespace MetadataBlock

/-! ## Traces -/

/-- Every step of a trace has a positive level. -/
def Announced (trace : List TraceLine) : Prop :=
  ∀ t ∈ trace, 0 < t.level

theorem announced_cons {t : TraceLine} {trace : List TraceLine} (ht : 0 < t.level)
    (htrace : Announced trace) : Announced (t :: trace) :=
  List.forall_mem_cons.mpr ⟨ht, htrace⟩

theorem announced_append {trace more : List TraceLine} (h : Announced trace) (hmore : Announced more) :
    Announced (trace ++ more) :=
  List.forall_mem_append.mpr ⟨h, hmore⟩

theorem announced_flatMap {α : Type} {f : α → List TraceLine} (l : List α)
    (h : ∀ a, Announced (f a)) : Announced (l.flatMap f) := by
  intro t ht
  obtain ⟨a, -, hmem⟩ := List.mem_flatMap.mp ht
  exact h a t hmem

/-- A rule is traced at level two, whatever becomes of it. -/
theorem announced_traceRules {ι : Type} (rules : List (Rule ι)) (overrides : Overrides) :
    Announced (traceRules rules overrides) := by
  intro t ht
  obtain ⟨rule, -, rfl⟩ := List.mem_map.mp ht
  cases rule.resolve overrides with
  | skipped => exact Nat.zero_lt_two
  | active severity => exact Nat.zero_lt_two

theorem announced_traceSection (s : Section) (options : LintOptions) :
    Announced (traceSection s options) := by
  refine announced_append (announced_cons Nat.zero_lt_one (announced_traceRules _ _)) ?_
  exact announced_flatMap _ fun _ => announced_traceRules _ _

/-- A document is traced section by section, and each section rule by rule. -/
theorem announced_traceDocument (document : Document) (options : LintOptions) :
    Announced (traceDocument document options) := by
  refine announced_append (announced_cons Nat.zero_lt_one (announced_traceRules _ _)) ?_
  exact announced_flatMap _ fun s => announced_traceSection s options

theorem level_traceOutcome (violations : List Violation) : (traceOutcome violations).level = 1 := by
  cases violations with
  | nil => rfl
  | cons v vs => rfl

theorem announced_traceValidation (document : Document) (options : LintOptions) :
    Announced (traceValidation document options) := by
  refine announced_append (announced_traceDocument document options) ?_
  refine List.forall_mem_singleton.mpr ?_
  rw [level_traceOutcome]
  exact Nat.zero_lt_one

/-- What linting a source traces is announced, with a document or without one. -/
theorem announced_traceSource (path source : Text) (options : LintOptions) :
    Announced (traceSource path source options) := by
  refine announced_cons Nat.zero_lt_one ?_
  cases (readAt path source).document with
  | none => exact List.forall_mem_nil _
  | some document => exact announced_traceValidation document options

/-- Without verbosity a trace prints nothing, as every step of it has a level above zero. -/
theorem RunOptions.traceLines_of_quiet {o : RunOptions} (h : o.verbosity = 0) {trace : List TraceLine}
    (htrace : Announced trace) : o.traceLines trace = [] := by
  rw [RunOptions.traceLines, Report.traceLines, h, List.map_map, List.map_eq_nil_iff,
    List.filter_eq_nil_iff]
  intro t ht hlevel
  have hpositive := htrace t ht
  have hzero : t.level ≤ 0 := of_decide_eq_true hlevel
  omega

/-! ## Quiet runs -/

namespace RunOptions

variable {o : RunOptions}

theorem quietIfJson_of_text (h : o.json = false) : o.quietIfJson = o := by
  rw [quietIfJson, h]
  rfl

/-- A JSON run is carried out with the verbosity taken away; nothing else about it changes. -/
theorem quietIfJson_of_json (h : o.json = true) : o.quietIfJson = { o with verbosity := 0 } := by
  rw [quietIfJson, if_pos h]

theorem lintLines_of_quiet (h : o.verbosity = 0) (options : LintOptions) (files : List SourceFile) :
    o.lintLines options files = [] := by
  rw [lintLines, List.flatMap_eq_nil_iff]
  intro f _
  exact traceLines_of_quiet h (announced_traceSource f.path f.source options)

/-- The trace of a JSON run is left out, whatever verbosity it was called with. -/
theorem lintLines_quietIfJson (options : LintOptions) (files : List SourceFile) :
    o.quietIfJson.lintLines options files = if o.json then [] else o.lintLines options files := by
  cases hjson : o.json with
  | true =>
    rw [quietIfJson_of_json hjson, if_pos rfl]
    exact lintLines_of_quiet rfl options files
  | false => rw [quietIfJson_of_text hjson, if_neg Bool.false_ne_true]

/-- A report does not depend on the verbosity. -/
theorem reportLines_quietIfJson (results : List FileResult) (summary : Summary) :
    o.quietIfJson.reportLines results summary = o.reportLines results summary := by
  cases hjson : o.json with
  | true =>
    rw [quietIfJson_of_json hjson]
    rfl
  | false => rw [quietIfJson_of_text hjson]

theorem fatalLine_quietIfJson (e : FatalError) (code : Number) :
    fatalLine o.quietIfJson.json o.quietIfJson.color e code = fatalLine o.json o.color e code := by
  cases hjson : o.json with
  | true => rw [quietIfJson_of_json hjson, hjson]
  | false => rw [quietIfJson_of_text hjson, hjson]

theorem configPath_quietIfJson : o.quietIfJson.configPath = o.configPath := by
  cases hjson : o.json with
  | true => rw [quietIfJson_of_json hjson]
  | false => rw [quietIfJson_of_text hjson]

theorem settings_quietIfJson (w : World) : w.settings o.quietIfJson = w.settings o := by
  cases hjson : o.json with
  | true =>
    rw [quietIfJson_of_json hjson]
    rfl
  | false => rw [quietIfJson_of_text hjson]

end RunOptions

section

variable {w : World} (o : RunOptions) (options : LintOptions) {files : List SourceFile}

/-- Reporting ends without an error and prints the lines of the report. -/
theorem outcome_reportRun (results : List FileResult) :
    w.outcome (reportRun o results)
      = (.ok (), w.printing (o.reportLines results (Summary.of results))) := by
  rw [reportRun, RunOptions.reportLines]
  cases o.json with
  | true => rfl
  | false => exact outcome_printLines .out _

/-- Files that can be read are linted in order, if each of them is read to an end. -/
theorem outcome_checkFiles_ok (h : ∀ f ∈ files, w.read f.path = .ok f.source)
    (hends : ∀ f ∈ files, (lintSource f.path f.source options).endless = false) :
    w.outcome (checkFiles o options (files.map (·.path)))
      = (.ok (files.map (·.lint options)), w.printing (o.lintLines options files)) := by
  rw [checkFiles, outcome_bind_ok (outcome_loadFiles_ok h), outcome_lintFiles o options hends]

/-- The first file that is not read to an end ends the run. All files were loaded by then. -/
theorem outcome_checkFiles_endless {file : SourceFile} {rest : List SourceFile}
    (h : ∀ f ∈ files ++ file :: rest, w.read f.path = .ok f.source)
    (hends : ∀ f ∈ files, (lintSource f.path f.source options).endless = false)
    (hfile : (lintSource file.path file.source options).endless = true) :
    w.outcome (checkFiles o options ((files ++ file :: rest).map (·.path)))
      = (.error .endless, w.printing (o.lintLines options (files ++ [file]))) := by
  rw [checkFiles, outcome_bind_ok (outcome_loadFiles_ok h),
    outcome_lintFiles_endless o options hends hfile]

/-- The first file that cannot be read ends the run before any file is linted. -/
theorem outcome_checkFiles_error (h : ∀ f ∈ files, w.read f.path = .ok f.source) {path : Text}
    {rest : List Text} {f : FileFault} (hpath : w.read path = .error f) :
    w.outcome (checkFiles o options (files.map (·.path) ++ path :: rest))
      = (.error (.inputRead path (f.message path)), w) := by
  rw [checkFiles, outcome_bind_error (outcome_loadFiles_error h hpath)]

end

/-! ## Runs -/

/-- How checking files ends if it has an exit code: with which one, and in which world. -/
inductive CheckExit (w : World) (paths : List Text) (o : RunOptions) : Number → World → Prop
  /-- The settings cannot be resolved. -/
  | unsettled {e : FatalError} {line : Channel × Text} (settings : w.settings o = .error e)
      (message : e.message ≠ []) (tells : TellsError o.json o.color e.message 3 line) :
      CheckExit w paths o 3 ((w.settled o.configPath).printing [line])
  /-- An input cannot be read; all inputs before it can. -/
  | unreadable {settings : ResolvedSettings} {before : List SourceFile} {path : Text}
      {rest : List Text} {f : FileFault} {line : Channel × Text}
      (settled : w.settings o = .ok settings)
      (inputs : paths = before.map (·.path) ++ path :: rest)
      (readable : ∀ file ∈ before, w.read file.path = .ok file.source)
      (fault : w.read path = .error f)
      (tells : TellsError o.json o.color
        ("Could not read input file '" ++ path ++ "': " ++ f.message path) 2 line) :
      CheckExit w paths o 2 ((w.settled o.configPath).printing [line])
  /-- All inputs are linted and reported. A JSON report is not preceded by a trace. -/
  | linted {settings : ResolvedSettings} {files : List SourceFile} {results : List FileResult}
      {summary : Summary} {lines : List (Channel × Text)} (settled : w.settings o = .ok settings)
      (inputs : paths = files.map (·.path))
      (readable : ∀ file ∈ files, w.read file.path = .ok file.source)
      (ends : ∀ file ∈ files, (lintSource file.path file.source settings.options).endless = false)
      (results_eq : results = files.map (·.lint settings.options))
      (describes : summary.Describes results) (tells : TellsResults o results summary lines) :
      CheckExit w paths o
        (exitCodeOf (results.flatMap (·.violations)) settings.config.warningExitCode)
        ((w.settled o.configPath).printing
          ((if o.json then [] else o.lintLines settings.options files) ++ lines))

/-- How checking files ends: with an exit code, or with an error that is passed on. -/
inductive CheckEnd (w : World) (paths : List Text) (o : RunOptions) :
    Except FatalError Number → World → Prop
  | exit {code : Number} {after : World} (exit : CheckExit w paths o code after) :
      CheckEnd w paths o (.ok code) after
  /-- An input is not read to an end, which an alias inside the node that it refers to is
  needed for. Nothing but traces is printed, and no trace in JSON mode. -/
  | endless {settings : ResolvedSettings} {before : List SourceFile} {file : SourceFile}
      {rest : List SourceFile} (settled : w.settings o = .ok settings)
      (inputs : paths = (before ++ file :: rest).map (·.path))
      (readable : ∀ f ∈ before ++ file :: rest, w.read f.path = .ok f.source)
      (ends : ∀ f ∈ before, (lintSource f.path f.source settings.options).endless = false)
      (endless : (lintSource file.path file.source settings.options).endless = true)
      (nested : aliasesPointBack file.path file.source = false) :
      CheckEnd w paths o (.error (.unexpected "RangeError" "Maximum call stack size exceeded"))
        ((w.settled o.configPath).printing
          (if o.json then [] else o.lintLines settings.options (before ++ [file])))

section

variable {w : World} {o : RunOptions} {paths : List Text}

/-- What checking files reads it also finds in the world that looking for settings left. -/
theorem readable_settled {files : List SourceFile} {path : Option Text}
    (h : ∀ f ∈ files, w.read f.path = .ok f.source) :
    ∀ f ∈ files, (w.settled path).read f.path = .ok f.source := by
  intro f hf
  rw [World.read_settled]
  exact h f hf

/-- An error with an exit code ends a run with that code and one line. It is caught where the
run was started, so nothing that was printed before is lost. -/
theorem outcome_runCheck_error {e : FatalError} {code : Number} {after : World}
    (h : w.outcome (checkAndReport paths o.quietIfJson) = (.error e, after))
    (hcode : e.exitCode? = some code) :
    w.outcome (runCheck paths o) = (.ok code, after.printing [fatalLine o.json o.color e code]) := by
  rw [runCheck, outcome_tryCatch_error h, outcome_reportFatal _ _ hcode,
    RunOptions.fatalLine_quietIfJson]

/-- An error without an exit code is passed on by a run, in the world that it left. -/
theorem outcome_runCheck_passedOn {e : FatalError} {after : World}
    (h : w.outcome (checkAndReport paths o.quietIfJson) = (.error e, after))
    (hcode : e.exitCode? = none) : w.outcome (runCheck paths o) = (.error e, after) := by
  rw [runCheck, outcome_tryCatch_error h, outcome_reportFatal_passedOn _ _ hcode]

/-- Once there are settings, a run goes on in the world that looking for them left. -/
theorem outcome_checkAndReport {settings : ResolvedSettings} (h : w.settings o = .ok settings) :
    w.outcome (checkAndReport paths o.quietIfJson) = (w.settled o.configPath).outcome (do
      let results ← checkFiles o.quietIfJson settings.options paths
      reportRun o.quietIfJson results
      return (Summary.of results).exitCode settings.config.warningExitCode) := by
  have hresolve := outcome_resolveSettings w o.quietIfJson
  rw [RunOptions.settings_quietIfJson, h] at hresolve
  rw [checkAndReport, outcome_bind_ok hresolve, RunOptions.configPath_quietIfJson]

/-- Without settings a run ends before it looks at its inputs. -/
theorem checkEnd_unsettled {e : FatalError} (h : w.settings o = .error e) :
    ∃ result after, w.outcome (runCheck paths o) = (result, after)
      ∧ CheckEnd w paths o result after := by
  have hresolve := outcome_resolveSettings w o.quietIfJson
  rw [RunOptions.settings_quietIfJson, h] at hresolve
  have hrun : w.outcome (checkAndReport paths o.quietIfJson) = (.error e, w.settled o.configPath) := by
    rw [checkAndReport, outcome_bind_error hresolve, RunOptions.configPath_quietIfJson]
  have habout := aboutSettings_of_settings h
  exact ⟨_, _, outcome_runCheck_error hrun habout.exitCode?,
    .exit (.unsettled h habout.message (tellsError_fatalLine _ _ e 3))⟩

/-- An input that cannot be read ends a run before anything is linted, and so before anything
is traced. -/
theorem checkEnd_unreadable {settings : ResolvedSettings} (h : w.settings o = .ok settings)
    {files : List SourceFile} {path : Text} {rest : List Text} {f : FileFault}
    (hpaths : paths = files.map (·.path) ++ path :: rest)
    (hfiles : ∀ file ∈ files, w.read file.path = .ok file.source) (hfault : w.read path = .error f) :
    ∃ result after, w.outcome (runCheck paths o) = (result, after)
      ∧ CheckEnd w paths o result after := by
  subst hpaths
  have hread : (w.settled o.configPath).read path = .error f := by
    rw [World.read_settled, hfault]
  have hcheck : (w.settled o.configPath).outcome
        (checkFiles o.quietIfJson settings.options (files.map (·.path) ++ path :: rest))
      = (.error (.inputRead path (f.message path)), w.settled o.configPath) :=
    outcome_checkFiles_error _ _ (readable_settled hfiles) hread
  have hrun := (outcome_checkAndReport h).trans (outcome_bind_error hcheck)
  have htells := tellsError_fatalLine o.json o.color (.inputRead path (f.message path)) 2
  rw [message_inputRead] at htells
  exact ⟨_, _, outcome_runCheck_error hrun rfl,
    .exit (.unreadable h rfl hfiles hfault htells)⟩

/-- Inputs that can all be read are linted. Either all of them are read to an end, and a report
follows, or the first one that is not ends the run. -/
theorem checkEnd_readable {settings : ResolvedSettings} (h : w.settings o = .ok settings)
    {files : List SourceFile} (hpaths : paths = files.map (·.path))
    (hfiles : ∀ file ∈ files, w.read file.path = .ok file.source) :
    ∃ result after, w.outcome (runCheck paths o) = (result, after)
      ∧ CheckEnd w paths o result after := by
  subst hpaths
  have hread : ∀ file ∈ files, (w.settled o.configPath).read file.path = .ok file.source :=
    readable_settled hfiles
  rcases all_end_or_endless settings.options files with
    hends | ⟨before, file, rest, rfl, hbefore, hfile⟩
  · refine ⟨_, _, outcome_tryCatch_ok ?_, .exit (.linted h rfl hfiles hends rfl (describes_of _)
      (tellsResults_reportLines o _ _))⟩
    rw [outcome_checkAndReport h, outcome_bind_ok (outcome_checkFiles_ok _ _ hread hends),
      outcome_bind_ok (outcome_reportRun _ _), outcome_pure, World.printing_printing,
      RunOptions.lintLines_quietIfJson, RunOptions.reportLines_quietIfJson, exitCode_summary]
    rfl
  · have hcheck := outcome_checkFiles_endless o.quietIfJson settings.options hread hbefore hfile
    have hrun := (outcome_checkAndReport h).trans (outcome_bind_error hcheck)
    rw [RunOptions.lintLines_quietIfJson] at hrun
    exact ⟨_, _, outcome_runCheck_passedOn hrun rfl,
      .endless h rfl hfiles hbefore hfile (not_aliasesPointBack_of_endless hfile)⟩

/-- Every run ends in one of the ways. The cases are those of the run itself: the settings
first, then the inputs up to the first fault. -/
theorem checkEnd_runCheck (w : World) (paths : List Text) (o : RunOptions) :
    ∃ result after, w.outcome (runCheck paths o) = (result, after)
      ∧ CheckEnd w paths o result after := by
  cases hsettings : w.settings o with
  | error e => exact checkEnd_unsettled hsettings
  | ok settings =>
    rcases exists_readable_or_fault w paths with
      ⟨files, hpaths, hfiles⟩ | ⟨files, path, rest, f, hpaths, hfiles, hfault⟩
    · exact checkEnd_readable hsettings hpaths hfiles
    · exact checkEnd_unreadable hsettings hpaths hfiles hfault

/-- All that checking files needs: settings, and inputs that can be read. -/
def Checkable (w : World) (paths : List Text) (o : RunOptions) : Prop :=
  (∃ settings, w.settings o = .ok settings) ∧ ∀ path ∈ paths, ∃ source, w.read path = .ok source

theorem checkable_of_readable {settings : ResolvedSettings} {files : List SourceFile}
    (h : w.settings o = .ok settings) (hpaths : paths = files.map (·.path))
    (hfiles : ∀ file ∈ files, w.read file.path = .ok file.source) : Checkable w paths o := by
  refine ⟨⟨settings, h⟩, fun path hpath => ?_⟩
  rw [hpaths] at hpath
  obtain ⟨file, hfile, rfl⟩ := List.mem_map.mp hpath
  exact ⟨file.source, hfiles file hfile⟩

/-- Without all that it needs, checking prints one line about an error and nothing else; with
it, one report. -/
theorem CheckExit.error_or_report {code : Number} {after : World}
    (h : CheckExit w paths o code after) :
    (¬ Checkable w paths o ∧ ∃ message line, message ≠ []
        ∧ TellsError o.json o.color message code line
        ∧ after = (w.settled o.configPath).printing [line])
      ∨ (Checkable w paths o ∧ ∃ trace results summary lines, TellsResults o results summary lines
        ∧ after = (w.settled o.configPath).printing ((if o.json then [] else trace) ++ lines)) := by
  cases h with
  | @unsettled e line hsettings hmessage htells =>
    refine .inl ⟨?_, e.message, line, hmessage, htells, rfl⟩
    rintro ⟨⟨settings, hsettled⟩, -⟩
    rw [hsettings] at hsettled
    cases hsettled
  | @unreadable settings before path rest f line hsettled hinputs hreadable hfault htells =>
    refine .inl ⟨?_, _, line, List.cons_ne_nil _ _, htells, rfl⟩
    -- the input with the fault is one of those that would have to be readable
    rintro ⟨-, hall⟩
    have hmem : path ∈ paths := by
      rw [hinputs]
      exact List.mem_append_right _ List.mem_cons_self
    obtain ⟨source, hread⟩ := hall path hmem
    rw [hfault] at hread
    cases hread
  | @linted settings files results summary lines hsettled hinputs hreadable hends hresults
      hdescribes htells =>
    exact .inr ⟨checkable_of_readable hsettled hinputs hreadable, _, _, _, _, htells, rfl⟩

/-- A JSON run with an exit code prints one document, an object that says first whether the
files could be checked. -/
theorem CheckExit.exists_json {code : Number} {after : World} (h : CheckExit w paths o code after)
    (hjson : o.json = true) :
    ∃ success fields text, after.printed = w.printed ++ [(.out, text)]
      ∧ Json.Spells (.object (("success", .bool success) :: fields)) text
      ∧ (success = true ↔ Checkable w paths o) := by
  rcases h.error_or_report with
    ⟨hnot, message, line, -, htells, rfl⟩ | ⟨hcheckable, trace, results, summary, lines, htells, rfl⟩
  · cases htells with
    | text htext => exact absurd (htext.symm.trans hjson) Bool.false_ne_true
    | json _ hline =>
      refine ⟨false, _, _, ?_, hline, iff_of_false Bool.false_ne_true hnot⟩
      rw [World.printed_printing, World.printed_settled]
  · cases htells with
    | text htext => exact absurd (htext.symm.trans hjson) Bool.false_ne_true
    | json _ _ _ hline =>
      refine ⟨true, _, _, ?_, hline, iff_of_true rfl hcheckable⟩
      rw [World.printed_printing, World.printed_settled, if_pos hjson, List.nil_append]

theorem CheckEnd.exit_of_ok {code : Number} {after : World}
    (h : CheckEnd w paths o (.ok code) after) : CheckExit w paths o code after := by
  cases h with
  | exit hexit => exact hexit

/-- A JSON run that passes an error on prints nothing, as its trace is left out too. -/
theorem CheckEnd.printed_of_error {e : FatalError} {after : World}
    (h : CheckEnd w paths o (.error e) after) (hjson : o.json = true) :
    after.printed = w.printed := by
  cases h with
  | endless _ _ _ _ _ _ =>
    rw [World.printed_printing, World.printed_settled, if_pos hjson, List.append_nil]

/-- A text run without all that it needs prints one message, on the channel for errors. -/
theorem CheckExit.exists_message {code : Number} {after : World}
    (h : CheckExit w paths o code after) (htext : o.json = false) (hnot : ¬ Checkable w paths o) :
    ∃ message line, message ≠ [] ∧ Paints o.color line message
      ∧ after.printed = w.printed ++ [(.err, line)] := by
  rcases h.error_or_report with
    ⟨-, message, line, hmessage, htells, rfl⟩ | ⟨hcheckable, -⟩
  · cases htells with
    | text _ hline =>
      refine ⟨message, _, hmessage, hline, ?_⟩
      rw [World.printed_printing, World.printed_settled]
    | json hjson => exact absurd (htext.symm.trans hjson) Bool.false_ne_true
  · exact absurd hcheckable hnot

/-- A run that passes an error on was not without all that it needs. -/
theorem CheckEnd.exists_message {result : Except FatalError Number} {after : World}
    (h : CheckEnd w paths o result after) (htext : o.json = false) (hnot : ¬ Checkable w paths o) :
    ∃ message line, message ≠ [] ∧ Paints o.color line message
      ∧ after.printed = w.printed ++ [(.err, line)] := by
  cases h with
  | exit hexit => exact hexit.exists_message htext hnot
  | endless settled inputs readable _ _ _ =>
    exact absurd (checkable_of_readable settled inputs readable) hnot

/-- What is passed on besides are the remarks of the parser about a configuration file. Inputs
are parsed without passing anything on. -/
theorem CheckEnd.warned_eq {result : Except FatalError Number} {after : World}
    (h : CheckEnd w paths o result after) :
    after.warned = (w.settled o.configPath).warned := by
  cases h with
  | exit hexit =>
    rcases hexit.error_or_report with
      ⟨-, message, line, -, -, rfl⟩ | ⟨-, trace, results, summary, lines, -, rfl⟩
    · rfl
    · rfl
  | endless _ _ _ _ _ _ => rfl

/-- Checking files ends in one of three ways with an exit code, or passes on an error, for which
an alias inside the node that it refers to is needed. In JSON mode one document is printed and
nothing else, and it says whether the files could be checked; with an error that is passed on,
nothing is printed. In text mode, files that cannot be checked leave one message on the channel
for errors and nothing else. What the parser remarks about the configuration file is passed on
besides. -/
theorem runCheck_exit (w : World) (paths : List Text) (o : RunOptions) :
    ∃ result after, w.outcome (runCheck paths o) = (result, after)
      ∧ CheckEnd w paths o result after
      ∧ (∀ code, result = .ok code → o.json = true → ∃ success fields text,
          after.printed = w.printed ++ [(.out, text)]
            ∧ Json.Spells (.object (("success", .bool success) :: fields)) text
            ∧ (success = true ↔ Checkable w paths o))
      ∧ (∀ e, result = .error e → o.json = true → after.printed = w.printed)
      ∧ (o.json = false → ¬ Checkable w paths o → ∃ message line,
          message ≠ [] ∧ Paints o.color line message
            ∧ after.printed = w.printed ++ [(.err, line)])
      ∧ after.warned = w.warned ++ w.remarks o.configPath := by
  obtain ⟨result, after, hrun, hend⟩ := checkEnd_runCheck w paths o
  refine ⟨result, after, hrun, hend, ?_, ?_, hend.exists_message, ?_⟩
  · rintro code rfl hjson
    exact hend.exit_of_ok.exists_json hjson
  · rintro e rfl hjson
    exact hend.printed_of_error hjson
  · rw [hend.warned_eq, World.warned_settled]

end

/-- An input with an alias inside the node that it refers to. -/
def selfReference : World where
  entries := [(["a.yml"], .file "a: &a [*a]\n")]

/-- A configuration file with a tag that its parser remarks on. -/
def remarkedSettings : World where
  entries := [(["lint.yml"], .file "error: !rules 1\n")]
  parserWarnings _ := ["Unresolved tag: !rules at line 1, column 8:"]

/-- Checking an input that refers to itself has no exit code and prints no document; the error
is passed on. What is wrong with a configuration file may not be all that is shown of it: its
parser may have remarked on it as well. -/
theorem runCheck_selfReference :
    (selfReference.outcome (runCheck ["a.yml"] { json := true })).1
        = .error (.unexpected "RangeError" "Maximum call stack size exceeded")
      ∧ (selfReference.outcome (runCheck ["a.yml"] { json := true })).2.printed = []
      ∧ (remarkedSettings.outcome (runCheck [] { configPath := some "lint.yml" })).1 = .ok 3
      ∧ (remarkedSettings.outcome (runCheck [] { configPath := some "lint.yml" })).2.warned
        = ["Unresolved tag: !rules at line 1, column 8:"] := by
  decide +kernel

end MetadataBlock
