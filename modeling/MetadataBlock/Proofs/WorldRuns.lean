import MetadataBlock.Command.Run
import MetadataBlock.Host.World
import MetadataBlock.Proofs.LintedSource

/-!
# Runs in a world

What the steps of a run do in a `World`: each gives a value, or an error that ends the
run, and leaves a world behind.

- `World.logging`: the world with other records of what was printed and passed on, which
  neither reading nor writing looks at; `World.printing` adds lines;
- `World.outcome`: what a part of a run gives and leaves, with one lemma for each step
  (`outcome_bind_ok`, `outcome_bind_error`, `outcome_tryCatch_ok`, `outcome_tryCatch_error`,
  `outcome_readFile`, `outcome_writeFile`);
- `World.settings`, `World.settled`: the settings that a run finds, and the world after it
  looked for them; `aboutSettings_of_settings`: the error if there are none;
- `outcome_loadFiles_ok`, `outcome_loadFiles_error`: reading inputs, up to the first that
  cannot be read;
- `outcome_lintFiles`, `outcome_lintFiles_endless`: linting prints the trace and gives one
  result for each file, up to the first that is not read to an end.
-/

namespace MetadataBlock

/-! ## What is recorded -/

namespace World

/-- The world with other records of what was printed and passed on. -/
def logging (w : World) (printed : List (Channel × Text)) (warned : List Text) : World :=
  { w with printed, warned }

/-- The world after some lines were printed. -/
def printing (w : World) (lines : List (Channel × Text)) : World :=
  w.logging (w.printed ++ lines) w.warned

section

variable {w : World} {printed : List (Channel × Text)} {warned : List Text}

@[simp]
theorem entry?_logging (place : List Text) :
    World.entry? (w.logging printed warned) place = w.entry? place := rfl

/-- Following components looks at what is there, and not at what was printed. -/
theorem follow_logging (place cs : List Text) :
    (w.logging printed warned).follow place cs = w.follow place cs := by
  induction cs generalizing place with
  | nil => rfl
  | cons c cs ih =>
    rw [follow, follow, entry?_logging]
    split
    · rfl
    · rfl
    · exact ih _

@[simp]
theorem locate_logging (path : Text) :
    (w.logging printed warned).locate path = w.locate path := by
  rw [locate, locate, follow_logging]
  rfl

@[simp]
theorem read_logging (path : Text) : (w.logging printed warned).read path = w.read path := by
  rw [read, read, locate_logging]
  rfl

/-- A write comes out the same whatever was recorded, and keeps the records. So what a run
prints can be put in front of its writes or behind them. -/
theorem write_logging (path content : Text) :
    (w.logging printed warned).write path content
      = ((w.write path content).1, (w.write path content).2.logging printed warned) := by
  rw [write, write, locate_logging]
  cases w.locate path with
  | error f => rfl
  | ok place =>
    have hobstacle : (w.logging printed warned).obstacle? path place = w.obstacle? path place := rfl
    simp only [hobstacle]
    cases w.obstacle? path place with
    | none => rfl
    | some fault =>
      obtain ⟨f, left⟩ := fault
      cases left with
      | none => rfl
      | some left => rfl

/-- A write records nothing of what is printed or passed on. -/
theorem logs_write (w : World) (path content : Text) :
    (w.write path content).2.printed = w.printed ∧ (w.write path content).2.warned = w.warned := by
  rw [write]
  cases w.locate path with
  | error f => exact ⟨rfl, rfl⟩
  | ok place =>
    simp only
    cases w.obstacle? path place with
    | none => exact ⟨rfl, rfl⟩
    | some fault =>
      obtain ⟨f, left⟩ := fault
      cases left with
      | none => exact ⟨rfl, rfl⟩
      | some left => exact ⟨rfl, rfl⟩

end

section

variable {w : World} {lines : List (Channel × Text)}

@[simp]
theorem printing_nil : w.printing [] = w := by
  rw [printing, List.append_nil]
  rfl

@[simp]
theorem printing_printing {more : List (Channel × Text)} :
    (w.printing lines).printing more = w.printing (lines ++ more) := by
  rw [printing, printing, printing, ← List.append_assoc]
  rfl

@[simp]
theorem printed_printing : (w.printing lines).printed = w.printed ++ lines := rfl

@[simp]
theorem warned_printing : (w.printing lines).warned = w.warned := rfl

@[simp]
theorem read_printing (path : Text) : (w.printing lines).read path = w.read path :=
  read_logging path

/-- Lines that were printed before a write are still there after it. -/
theorem write_printing (path content : Text) :
    (w.printing lines).write path content
      = ((w.write path content).1, (w.write path content).2.printing lines) := by
  obtain ⟨hprinted, hwarned⟩ := logs_write w path content
  rw [printing, write_logging, printing, hprinted, hwarned]

end

end World

/-! ## Steps of a run -/

/-- What a part of a run gives in a world, and the world that it leaves behind. -/
def World.outcome {α : Type} (w : World) (x : ExceptT FatalError (StateM World) α) :
    Except FatalError α × World :=
  x.run.run w

section

variable {α β : Type} {w w' : World} {x : ExceptT FatalError (StateM World) α}
  {f : α → ExceptT FatalError (StateM World) β}

theorem outcome_bind :
    w.outcome (x >>= f) = (ExceptT.bindCont f (w.outcome x).1).run (w.outcome x).2 := rfl

/-- A run goes on in the world that a value left behind. -/
theorem outcome_bind_ok {a : α} (h : w.outcome x = (.ok a, w')) :
    w.outcome (x >>= f) = w'.outcome (f a) := by
  rw [outcome_bind, h]
  rfl

/-- An error ends a run. -/
theorem outcome_bind_error {e : FatalError} (h : w.outcome x = (.error e, w')) :
    w.outcome (x >>= f) = (.error e, w') := by
  rw [outcome_bind, h]
  rfl

/-- A value needs no handler. -/
theorem outcome_tryCatch_ok {handle : FatalError → ExceptT FatalError (StateM World) α} {a : α}
    (h : w.outcome x = (.ok a, w')) : w.outcome (tryCatch x handle) = (.ok a, w') := by
  simp only [World.outcome, ExceptT.run, tryCatch, tryCatchThe, MonadExceptOf.tryCatch,
    ExceptT.tryCatch, ExceptT.mk, StateT.run_bind] at h ⊢
  rw [h]
  rfl

/-- A handler goes on in the world that an error left behind. -/
theorem outcome_tryCatch_error {handle : FatalError → ExceptT FatalError (StateM World) α}
    {e : FatalError} (h : w.outcome x = (.error e, w')) :
    w.outcome (tryCatch x handle) = w'.outcome (handle e) := by
  simp only [World.outcome, ExceptT.run, tryCatch, tryCatchThe, MonadExceptOf.tryCatch,
    ExceptT.tryCatch, ExceptT.mk, StateT.run_bind] at h ⊢
  rw [h]
  rfl

theorem outcome_pure (a : α) : w.outcome (pure a) = (.ok a, w) := rfl

theorem outcome_throw (e : FatalError) :
    w.outcome (throw e : ExceptT FatalError (StateM World) α) = (.error e, w) := rfl

theorem outcome_mk_pure (r : Except FatalError α) : w.outcome (.mk (pure r)) = (r, w) := rfl

theorem outcome_directory : w.outcome Host.directory = (.ok w.directory, w) := rfl

theorem outcome_readFile (path : Text) :
    w.outcome (Host.readFile path) = (.ok (w.read path), w) := rfl

/-- A fault of a write is a value here: it does not end the run by itself. -/
theorem outcome_writeFile (path content : Text) :
    w.outcome (Host.writeFile path content)
      = (.ok (w.write path content).1, (w.write path content).2) := rfl

theorem outcome_warnAbout (source : Text) :
    w.outcome (Host.warnAbout source) = (.ok (), w.warnAbout source) := rfl

theorem outcome_print (channel : Channel) (line : Text) :
    w.outcome (Host.print channel line) = (.ok (), w.printing [(channel, line)]) := rfl

/-- Lines are printed one after the other. -/
theorem outcome_printLines (channel : Channel) (ls : List Text) :
    w.outcome (printLines channel ls) = (.ok (), w.printing (ls.map (channel, ·))) := by
  induction ls generalizing w with
  | nil =>
    rw [List.map_nil, World.printing_nil]
    rfl
  | cons l ls ih =>
    rw [printLines, outcome_bind_ok (outcome_print channel l), ih, World.printing_printing]
    rfl

/-- The lines of a trace that a run prints. -/
def RunOptions.traceLines (o : RunOptions) (trace : List TraceLine) : List (Channel × Text) :=
  (Report.traceLines o.color o.verbosity trace).map (.out, ·)

theorem outcome_printTrace (o : RunOptions) (trace : List TraceLine) :
    w.outcome (printTrace o trace) = (.ok (), w.printing (o.traceLines trace)) :=
  outcome_printLines .out _

/-- The line that reports an error that ended a run with an exit code. -/
def fatalLine (json color : Bool) (e : FatalError) (code : Number) : Channel × Text :=
  if json then (.out, (Report.fatalData e code).jsonPretty)
  else (.err, Style.red.paint color e.message)

/-- An error with an exit code is reported on one line, and the run ends with the code. -/
theorem outcome_reportFatal (json color : Bool) {e : FatalError} {code : Number}
    (h : e.exitCode? = some code) :
    w.outcome (reportFatal json color e) = (.ok code, w.printing [fatalLine json color e code]) := by
  rw [reportFatal, h]
  cases json with
  | true => rfl
  | false => rfl

/-- Any other error is passed on, and nothing is printed about it. -/
theorem outcome_reportFatal_passedOn (json color : Bool) {e : FatalError}
    (h : e.exitCode? = none) : w.outcome (reportFatal json color e) = (.error e, w) := by
  rw [reportFatal, h]
  rfl

end

/-! ## Settings -/

/-- An error about the settings has an exit code of its own, and says what is wrong. -/
structure FatalError.AboutSettings (e : FatalError) : Prop where
  exitCode? : e.exitCode? = some ExitCode.configuration
  message : e.message ≠ []

/-- A part of a run that leads from one world to another, and whose errors are about the
settings. -/
def Settles {α : Type} (w w' : World) (x : ExceptT FatalError (StateM World) α) : Prop :=
  ∃ r, w.outcome x = (r, w') ∧ ∀ e, r = .error e → e.AboutSettings

section

variable {α β : Type} {w w' : World}

theorem settles_mk_pure {r : Except FatalError α}
    (h : ∀ e, r = .error e → e.AboutSettings) : Settles w w (.mk (pure r)) :=
  ⟨r, outcome_mk_pure r, h⟩

theorem settles_config {message : Text} (h : message ≠ []) :
    Settles w w (throw (.config message) : ExceptT FatalError (StateM World) α) := by
  refine ⟨_, outcome_throw _, ?_⟩
  rintro e ⟨⟩
  exact ⟨rfl, h⟩

/-- What follows a part that settles leaves the world as it finds it, so it does not matter
which of the two has the error. -/
theorem Settles.bind {x : ExceptT FatalError (StateM World) α}
    {f : α → ExceptT FatalError (StateM World) β} (hx : Settles w w' x)
    (hf : ∀ a, Settles w' w' (f a)) : Settles w w' (x >>= f) := by
  obtain ⟨r, hrun, herror⟩ := hx
  cases r with
  | ok a =>
    obtain ⟨r, hnext, hr⟩ := hf a
    exact ⟨r, (outcome_bind_ok hrun).trans hnext, hr⟩
  | error e =>
    refine ⟨.error e, outcome_bind_error hrun, ?_⟩
    rintro e' ⟨⟩
    exact herror e rfl

/-- Data that are no settings are an error about the settings, with a message that begins with
the source. -/
theorem aboutSettings_of_ofData {d : Data} {source : Text} :
    ∀ e, LintConfig.ofData d source = .error e → e.AboutSettings := by
  intro e h
  simp only [LintConfig.ofData] at h
  split at h
  · cases h
  · obtain rfl := Except.error.inj h
    exact ⟨rfl, List.cons_ne_nil _ _⟩

/-- So is an identifier that stands for no rule. -/
theorem aboutSettings_of_lintOptions {c : LintConfig} :
    ∀ e, c.lintOptions = .error e → e.AboutSettings := by
  intro e h
  rw [LintConfig.lintOptions, LintConfig.overrides] at h
  cases hresolve : OverrideRequest.resolve ⟨c.error, c.warn, c.skip⟩ with
  | ok overrides =>
    rw [hresolve] at h
    cases h
  | error identifier =>
    rw [hresolve] at h
    obtain rfl := Except.error.inj h
    exact ⟨rfl, List.cons_ne_nil _ _⟩

/-- What the parser remarks about a configuration file, if there is one that can be read. -/
def World.remarks (w : World) (configPath : Option Text) : List Text :=
  match configPath with
  | none => []
  | some path =>
    match w.read path with
    | .error _ => []
    | .ok content => w.parserWarnings content

/-- The world after a configuration file was looked for. -/
def World.settled (w : World) (configPath : Option Text) : World :=
  w.logging w.printed (w.warned ++ w.remarks configPath)

theorem World.settled_of_no_remarks {w : World} {configPath : Option Text}
    (h : w.remarks configPath = []) : w.settled configPath = w := by
  rw [World.settled, h, List.append_nil]
  rfl

/-- Loading a configuration file reads it, passes on the remarks of the parser, and then reads
its data; without a file there is nothing to remark. -/
theorem settles_loadConfig (w : World) (path : Option Text) :
    Settles w (w.settled path) (loadConfig path) := by
  cases path with
  | none =>
    rw [World.settled_of_no_remarks rfl]
    exact settles_mk_pure aboutSettings_of_ofData
  | some path =>
    rw [loadConfig, Settles, outcome_bind_ok (outcome_readFile path)]
    cases hread : w.read path with
    | error f =>
      have hnone : w.remarks (some path) = [] := by rw [World.remarks, hread]
      rw [World.settled_of_no_remarks hnone]
      exact settles_config (List.cons_ne_nil _ _)
    | ok content =>
      -- the remarks are passed on before the data are read, whatever comes of them
      have hwarned : w.settled (some path) = w.warnAbout content := by
        rw [World.settled, World.remarks, hread]
        rfl
      rw [hwarned]
      simp only
      rw [outcome_bind_ok (outcome_warnAbout content)]
      cases hdata : Yaml.readData content with
      | error reason => exact settles_config (List.cons_ne_nil _ _)
      | ok data => exact settles_mk_pure aboutSettings_of_ofData

/-- Looking for settings leads to one world, however it ends. Only the configuration file is
read from it; the command line and the overrides are looked at in that world. -/
theorem settles_resolveSettings (w : World) (path : Option Text) (settings : CommandLineSettings) :
    Settles w (w.settled path) (resolveSettings path settings) := by
  refine (settles_loadConfig w path).bind fun file => ?_
  refine (settles_mk_pure aboutSettings_of_ofData).bind fun config => ?_
  refine (settles_mk_pure aboutSettings_of_lintOptions).bind fun options => ?_
  exact ⟨.ok ⟨config, options⟩, outcome_pure _, fun e h => nomatch h⟩

end

/-- The settings that a run finds in a world. -/
def World.settings (w : World) (o : RunOptions) : Except FatalError ResolvedSettings :=
  (w.outcome (resolveSettings o.configPath o.settings)).1

/-- A run looks for its settings once, and the world that is left is known beforehand. -/
theorem outcome_resolveSettings (w : World) (o : RunOptions) :
    w.outcome (resolveSettings o.configPath o.settings) = (w.settings o, w.settled o.configPath) := by
  obtain ⟨r, hrun, -⟩ := settles_resolveSettings w o.configPath o.settings
  rw [World.settings, hrun]

/-- What keeps a run from finding its settings is an error about them, so that the run ends
with the exit code for settings. -/
theorem aboutSettings_of_settings {w : World} {o : RunOptions} {e : FatalError}
    (h : w.settings o = .error e) : e.AboutSettings := by
  obtain ⟨r, hrun, herror⟩ := settles_resolveSettings w o.configPath o.settings
  rw [World.settings, hrun] at h
  exact herror e h

/-! Looking for settings changes nothing but the record of what was passed on. -/

section

variable {w : World} {path : Option Text}

@[simp]
theorem World.read_settled (file : Text) : (w.settled path).read file = w.read file :=
  World.read_logging file

@[simp]
theorem World.printed_settled : (w.settled path).printed = w.printed := rfl

@[simp]
theorem World.warned_settled : (w.settled path).warned = w.warned ++ w.remarks path := rfl

end

/-! ## Files -/

section

variable {w : World} {files : List SourceFile}

/-- Inputs that can all be read are read in order. -/
theorem outcome_loadFiles_ok (h : ∀ f ∈ files, w.read f.path = .ok f.source) :
    w.outcome (loadFiles (files.map (·.path))) = (.ok files, w) := by
  induction files with
  | nil => rfl
  | cons f files ih =>
    rw [List.forall_mem_cons] at h
    rw [List.map_cons, loadFiles, outcome_bind_ok (outcome_readFile f.path), h.1]
    simp only
    rw [outcome_bind_ok (ih h.2)]
    rfl

/-- Reading inputs stops at the first one that cannot be read, and no input changes by being
read. -/
theorem outcome_loadFiles_error (h : ∀ f ∈ files, w.read f.path = .ok f.source) {path : Text}
    {rest : List Text} {f : FileFault} (hpath : w.read path = .error f) :
    w.outcome (loadFiles (files.map (·.path) ++ path :: rest))
      = (.error (.inputRead path (f.message path)), w) := by
  induction files with
  | nil =>
    rw [List.map_nil, List.nil_append, loadFiles, outcome_bind_ok (outcome_readFile path), hpath]
    rfl
  | cons first files ih =>
    rw [List.forall_mem_cons] at h
    rw [List.map_cons, List.cons_append, loadFiles, outcome_bind_ok (outcome_readFile first.path), h.1]
    simp only
    rw [outcome_bind_error (ih h.2)]

/-- Either all inputs can be read, or there is a first one that cannot. -/
theorem exists_readable_or_fault (w : World) (paths : List Text) :
    (∃ files : List SourceFile, paths = files.map (·.path)
        ∧ ∀ f ∈ files, w.read f.path = .ok f.source)
      ∨ ∃ (files : List SourceFile) (path : Text) (rest : List Text) (f : FileFault),
        paths = files.map (·.path) ++ path :: rest
          ∧ (∀ f ∈ files, w.read f.path = .ok f.source) ∧ w.read path = .error f := by
  induction paths with
  | nil => exact .inl ⟨[], rfl, List.forall_mem_nil _⟩
  | cons path paths ih =>
    cases hread : w.read path with
    | error f => exact .inr ⟨[], path, paths, f, rfl, List.forall_mem_nil _, hread⟩
    | ok source =>
      rcases ih with ⟨files, rfl, hfiles⟩ | ⟨files, bad, rest, f, rfl, hfiles, hbad⟩
      · exact .inl ⟨⟨path, source⟩ :: files, rfl, List.forall_mem_cons.mpr ⟨hread, hfiles⟩⟩
      · exact .inr ⟨⟨path, source⟩ :: files, bad, rest, f, rfl,
          List.forall_mem_cons.mpr ⟨hread, hfiles⟩, hbad⟩

/-- The result of linting a file that was read. -/
def SourceFile.lint (f : SourceFile) (options : LintOptions) : FileResult :=
  (lintSource f.path f.source options).toFileResult

/-- The lines that a run prints while it lints files. -/
def RunOptions.lintLines (o : RunOptions) (options : LintOptions) (files : List SourceFile) :
    List (Channel × Text) :=
  files.flatMap fun f => o.traceLines (traceSource f.path f.source options)

/-- Linting a file prints its trace. A source that is read to an end is linted then. -/
theorem outcome_lintFile (o : RunOptions) (options : LintOptions) {f : SourceFile}
    (h : (lintSource f.path f.source options).endless = false) :
    w.outcome (lintFile o options f)
      = (.ok (lintSource f.path f.source options),
          w.printing (o.traceLines (traceSource f.path f.source options))) := by
  rw [lintFile, outcome_bind_ok (outcome_printTrace o _)]
  simp only
  rw [h]
  rfl

/-- Any other source ends the run there, behind its trace. -/
theorem outcome_lintFile_endless (o : RunOptions) (options : LintOptions) {f : SourceFile}
    (h : (lintSource f.path f.source options).endless = true) :
    w.outcome (lintFile o options f)
      = (.error .endless, w.printing (o.traceLines (traceSource f.path f.source options))) := by
  rw [lintFile, outcome_bind_ok (outcome_printTrace o _)]
  simp only
  rw [h]
  rfl

/-- Linting files prints their traces and gives their results, in order. No file is linted with
what was found in another. -/
theorem outcome_lintFiles (o : RunOptions) (options : LintOptions)
    (h : ∀ f ∈ files, (lintSource f.path f.source options).endless = false) :
    w.outcome (lintFiles o options files)
      = (.ok (files.map (·.lint options)), w.printing (o.lintLines options files)) := by
  induction files generalizing w with
  | nil =>
    rw [RunOptions.lintLines, List.flatMap_nil, World.printing_nil]
    rfl
  | cons f files ih =>
    rw [List.forall_mem_cons] at h
    rw [lintFiles, outcome_bind_ok (outcome_lintFile o options h.1), outcome_bind_ok (ih h.2),
      World.printing_printing]
    rfl

/-- Linting files stops at the first one that is not read to an end, and gives no result for
those before it. Their traces are printed already. -/
theorem outcome_lintFiles_endless (o : RunOptions) (options : LintOptions) {file : SourceFile}
    (h : ∀ f ∈ files, (lintSource f.path f.source options).endless = false)
    (hfile : (lintSource file.path file.source options).endless = true) (rest : List SourceFile) :
    w.outcome (lintFiles o options (files ++ file :: rest))
      = (.error .endless, w.printing (o.lintLines options (files ++ [file]))) := by
  induction files generalizing w with
  | nil =>
    rw [List.nil_append, lintFiles, outcome_bind_error (outcome_lintFile_endless o options hfile),
      RunOptions.lintLines, List.nil_append, List.flatMap_singleton]
  | cons f files ih =>
    rw [List.forall_mem_cons] at h
    rw [List.cons_append, lintFiles, outcome_bind_ok (outcome_lintFile o options h.1),
      outcome_bind_error (ih h.2), World.printing_printing]
    rfl

/-- Either all files are read to an end, or there is a first one that is not. -/
theorem all_end_or_endless (options : LintOptions) (files : List SourceFile) :
    (∀ f ∈ files, (lintSource f.path f.source options).endless = false)
      ∨ ∃ before file rest, files = before ++ file :: rest
        ∧ (∀ f ∈ before, (lintSource f.path f.source options).endless = false)
        ∧ (lintSource file.path file.source options).endless = true := by
  cases hfind : files.find? fun f => (lintSource f.path f.source options).endless with
  | none =>
    refine .inl fun f hf => ?_
    exact eq_false_of_ne_true (List.find?_eq_none.mp hfind f hf)
  | some file =>
    obtain ⟨hfile, before, rest, hfiles, hbefore⟩ := List.find?_eq_some_iff_append.mp hfind
    refine .inr ⟨before, file, rest, hfiles, fun f hf => ?_, hfile⟩
    have hnot := hbefore f hf
    rwa [Bool.not_eq_true'] at hnot

end

end MetadataBlock
