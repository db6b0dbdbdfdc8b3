import MetadataBlock.Proofs.OverrideRequests
import MetadataBlock.Proofs.SettingsCheck
import MetadataBlock.Proofs.WorldRuns

/-!
# Effective settings

What a run makes of the settings of a configuration file and those of the command line.

- `requests`: the requests of both sources together;
- `Effective`: the overrides and numbers that a run goes by;
- `Resolves`: the outcome of resolving settings: when there is one, which error there is
  otherwise, and what is in effect;
- `lintOptions_of_known`, `lintOptions_of_unknown`: the last step, for requests whose
  identifiers all name rules and for others;
- `combine`: the settings of both sources, with `resolves_combine_of_invalid` and
  `resolves_combine_of_valid` for the two kinds of command-line settings;
- `resolveSettings_resolves`: resolving settings in a world.
-/

namespace MetadataBlock

open OverrideRequest (Known)

/-- The requests of a file and of the command line: those of the file come first in each
list. -/
def requests (F : LintConfig) (C : CommandLineSettings) : OverrideRequest where
  error := F.error ++ C.error
  warn := F.warn ++ C.warn
  skip := F.skip ++ C.skip

/-- Settings in effect, by those of a file and of the command line. -/
structure Effective (F : LintConfig) (C : CommandLineSettings) (s : ResolvedSettings) : Prop where
  overrides : ∀ name, s.options.overrides.get? name = (requests F C).requested name
  warningExitCode : s.config.warningExitCode = C.warningExitCode.getD F.warningExitCode
  minPrefixLength : s.config.minPrefixLength = (C.minPrefixLength <|> F.minPrefixLength)
  typoThreshold : s.config.typoThreshold = (C.typoThreshold <|> F.typoThreshold)
  /-- The rules get the least length as a natural number, three if it is not set. -/
  lengthInUse : (s.options.settings.minPrefixLength : Int)
    = (s.config.minPrefixLength.bind Number.integer?).getD 3
  /-- The rules get the threshold as an integer, one if it is not set. -/
  thresholdInUse : s.options.settings.typoThreshold
    = (s.config.typoThreshold.bind Number.integer?).getD 1

/-- The outcome of resolving settings of a file and of the command line. -/
structure Resolves (F : LintConfig) (C : CommandLineSettings)
    (r : Except FatalError ResolvedSettings) : Prop where
  succeeds_iff : (∃ s, r = .ok s) ↔ C.Valid ∧ ∀ i ∈ (requests F C).identifiers, Known i
  /-- Settings of the wrong shape are reported first, whatever the identifiers are. -/
  invalid : ¬ C.Valid → ∃ issues : List Settings.Issue, issues ≠ [] ∧ r = .error (.config
    ("Invalid command-line options:\n" ++ Text.joinWith "\n" (issues.map (·.text))))
  /-- Of the identifiers that name no rule the first one is reported. -/
  unknown : C.Valid → ∀ before i after, (requests F C).identifiers = before ++ i :: after →
    (∀ j ∈ before, Known j) → ¬ Known i → r = .error (.unknownRule i Catalog.identifiers)
  effective : ∀ s, r = .ok s → Effective F C s

/-! ## The last step -/

section

variable {c : LintConfig}

/-- The least length is a positive integer if it is set, so it may be taken as a natural
number. -/
theorem natCast_toNat?_bind {o : Option Number} {d : Nat}
    (h : ∀ x ∈ o, ∃ n, x.integer? = some n ∧ 1 ≤ n) :
    (((o.bind Number.toNat?).getD d : Nat) : Int) = (o.bind Number.integer?).getD d := by
  cases o with
  | none => rfl
  | some x =>
    obtain ⟨n, hn, hone⟩ := h x rfl
    cases x with
    | whole m =>
      cases hn
      have hnat : (Number.whole n).toNat? = some n.toNat := if_pos (by omega)
      simp only [Option.bind_some, hnat, Number.integer?, Option.getD_some]
      omega
    | negZero =>
      cases hn
      exact absurd hone (by decide)
    | nan | infinity | dyadic => cases hn

/-- The threshold is an integer if it is set, so it is its own floor. -/
theorem floor?_bind {o : Option Number} {d : Int}
    (h : ∀ x ∈ o, ∃ n, x.integer? = some n ∧ 0 ≤ n) :
    (o.bind Number.floor?).getD d = (o.bind Number.integer?).getD d := by
  cases o with
  | none => rfl
  | some x =>
    obtain ⟨n, hn, -⟩ := h x rfl
    cases x with
    | whole | negZero => rfl
    | nan | infinity | dyadic => cases hn

/-- Settings whose identifiers all name rules. -/
theorem lintOptions_of_known (h : ∀ i ∈ OverrideRequest.identifiers ⟨c.error, c.warn, c.skip⟩, Known i) :
    ∃ overrides, c.lintOptions = .ok { overrides, settings := c.ruleSettings } ∧
      ∀ name, overrides.get? name = OverrideRequest.requested ⟨c.error, c.warn, c.skip⟩ name := by
  obtain ⟨overrides, hresolve, hget⟩ := OverrideRequest.resolve_ok h
  refine ⟨overrides, ?_, hget⟩
  rw [LintConfig.lintOptions, LintConfig.overrides, hresolve]
  rfl

/-- Settings with an identifier that names no rule. -/
theorem lintOptions_of_unknown {before after : List Text} {i : Text}
    (hsplit : OverrideRequest.identifiers ⟨c.error, c.warn, c.skip⟩ = before ++ i :: after)
    (hbefore : ∀ j ∈ before, Known j) (hi : ¬ Known i) :
    c.lintOptions = .error (.unknownRule i Catalog.identifiers) := by
  rw [LintConfig.lintOptions, LintConfig.overrides, OverrideRequest.resolve_error hsplit hbefore hi]
  rfl

end

/-- Either all identifiers name rules, or there is a first one that does not. The list is gone
through from the front. -/
theorem known_or_first_unknown (identifiers : List Text) :
    (∀ i ∈ identifiers, Known i) ∨ ∃ before i after, identifiers = before ++ i :: after ∧
      (∀ j ∈ before, Known j) ∧ ¬ Known i := by
  induction identifiers with
  | nil => exact .inl (List.forall_mem_nil _)
  | cons i rest ih =>
    by_cases hi : Known i
    · rcases ih with hall | ⟨before, j, after, rfl, hbefore, hj⟩
      · exact .inl (List.forall_mem_cons.mpr ⟨hi, hall⟩)
      · exact .inr ⟨i :: before, j, after, rfl, List.forall_mem_cons.mpr ⟨hi, hbefore⟩, hj⟩
    · exact .inr ⟨[], i, rest, rfl, List.forall_mem_nil _, hi⟩

/-! ## Both sources -/

section

variable {F : LintConfig} {C : CommandLineSettings}

/-- Settings that are merged are in effect: those of the command line where they are given, and
those of the file elsewhere. -/
theorem effective_merge (hF : F.Valid) (hC : C.Valid) {overrides : Overrides}
    (hget : ∀ name, overrides.get? name = (requests F C).requested name) :
    Effective F C ⟨F.merge C, { overrides, settings := (F.merge C).ruleSettings }⟩ := by
  have hvalid := (merge_valid_iff hF).mpr hC
  exact ⟨hget, rfl, rfl, rfl, natCast_toNat?_bind hvalid.minPrefixLength,
    floor?_bind hvalid.typoThreshold⟩

/-- Settings of a file together with those of the command line, and what follows from
them. -/
def combine (F : LintConfig) (C : CommandLineSettings) : Except FatalError ResolvedSettings := do
  let config ← F.withCommandLine C
  let options ← config.lintOptions
  return ⟨config, options⟩

/-- Settings of the command line that have the wrong shape end in an error about it, before any
identifier is looked up. -/
theorem resolves_combine_of_invalid (hF : F.Valid) (hC : ¬ C.Valid) : Resolves F C (combine F C) := by
  obtain ⟨issues, hne, herror⟩ := withCommandLine_error hF hC
  generalize hmessage : _ ++ Text.joinWith "\n" (issues.map (·.text)) = message at herror
  have hcombine : combine F C = .error (.config message) := by
    rw [combine, herror]
    rfl
  have hfails : ∀ s, combine F C ≠ .ok s := by
    intro s hs
    rw [hcombine] at hs
    cases hs
  exact
    { succeeds_iff := iff_of_false (fun ⟨s, hs⟩ => hfails s hs) fun h => hC h.1
      invalid := fun _ => ⟨issues, hne, by rw [hcombine, ← hmessage]⟩
      unknown := fun h => absurd h hC
      effective := fun s hs => absurd hs (hfails s) }

/-- Settings of the right shape are resolved if all identifiers name rules; if not, the first
one that does not is reported. It is the first one of the merged lists, in which those of the
file come first. -/
theorem resolves_combine_of_valid (hF : F.Valid) (hC : C.Valid) : Resolves F C (combine F C) := by
  have hcombine : combine F C = (F.merge C).lintOptions.map (⟨F.merge C, ·⟩) := by
    rw [combine, withCommandLine_ok hF hC]
    rfl
  -- the identifiers of the merged settings are those of the requests
  have hunknown : ∀ before i after, (requests F C).identifiers = before ++ i :: after →
      (∀ j ∈ before, Known j) → ¬ Known i →
      combine F C = .error (.unknownRule i Catalog.identifiers) := by
    intro before i after hsplit hbefore hi
    rw [hcombine, lintOptions_of_unknown hsplit hbefore hi]
    rfl
  rcases known_or_first_unknown (requests F C).identifiers with
    hall | ⟨before, i, after, hsplit, hbefore, hi⟩
  · obtain ⟨overrides, hoptions, hget⟩ := lintOptions_of_known (c := F.merge C) hall
    have hok : combine F C
        = .ok ⟨F.merge C, { overrides, settings := (F.merge C).ruleSettings }⟩ := by
      rw [hcombine, hoptions]
      rfl
    exact
      { succeeds_iff := iff_of_true ⟨_, hok⟩ ⟨hC, hall⟩
        invalid := fun h => absurd hC h
        unknown := fun _ => hunknown
        effective := fun s hs => by
          obtain rfl := Except.ok.inj (hok.symm.trans hs)
          exact effective_merge hF hC hget }
  · have hfails : ∀ s, combine F C ≠ .ok s := by
      intro s hs
      rw [hunknown before i after hsplit hbefore hi] at hs
      cases hs
    have hmem : i ∈ (requests F C).identifiers := by
      rw [hsplit]
      exact List.mem_append_right _ List.mem_cons_self
    exact
      { succeeds_iff := iff_of_false (fun ⟨s, hs⟩ => hfails s hs) fun h => hi (h.2 i hmem)
        invalid := fun h => absurd hC h
        unknown := fun _ => hunknown
        effective := fun s hs => absurd hs (hfails s) }

end

/-! ## Runs -/

/-- What a run loads is valid: the data of a file are checked, and without a file the defaults
hold. -/
theorem valid_of_loadConfig {w : World} {path : Option Text} {F : LintConfig}
    (h : (w.outcome (loadConfig path)).1 = .ok F) : F.Valid := by
  cases path with
  | none =>
    rw [loadConfig, outcome_mk_pure] at h
    simp only at h
    exact LintConfig.valid_of_ofData h
  | some path =>
    rw [loadConfig, outcome_bind_ok (outcome_readFile path)] at h
    cases hread : w.read path with
    | error f =>
      rw [hread] at h
      cases h
    | ok content =>
      rw [hread] at h
      simp only at h
      rw [outcome_bind_ok (outcome_warnAbout content)] at h
      cases hdata : Yaml.readData content with
      | error reason =>
        rw [hdata] at h
        cases h
      | ok data =>
        rw [hdata] at h
        exact LintConfig.valid_of_ofData h

/-- Once a file is loaded, the settings follow from it and from the command line alone. The
steps that follow neither read nor print anything. -/
theorem outcome_resolveSettings_of_loadConfig {w : World} {path : Option Text} {F : LintConfig}
    (h : (w.outcome (loadConfig path)).1 = .ok F) (C : CommandLineSettings) :
    w.outcome (resolveSettings path C) = (combine F C, w.settled path) := by
  obtain ⟨r, hload, -⟩ := settles_loadConfig w path
  have hr : r = .ok F := by rw [← h, hload]
  rw [hr] at hload
  rw [resolveSettings, outcome_bind_ok hload, combine]
  cases hconfig : F.withCommandLine C with
  | error e =>
    rw [outcome_bind_error (outcome_mk_pure _)]
    rfl
  | ok config =>
    rw [outcome_bind_ok (outcome_mk_pure _)]
    cases hoptions : config.lintOptions with
    | error e =>
      rw [outcome_bind_error (outcome_mk_pure _)]
      simp only [bind, Except.bind, hoptions]
    | ok options =>
      rw [outcome_bind_ok (outcome_mk_pure _)]
      simp only [bind, Except.bind, hoptions]
      rfl

/-- **The settings in effect.** With the settings that a configuration file holds, resolving
settings succeeds exactly if those of the command line are valid and every identifier of both
sources stands for a rule; otherwise the shape of the settings is reported first, and then the
first identifier that stands for none. What is in effect depends on the rules that the lists
name only, and an identifier stands for a rule by its name or by its code in any letter case.
Nothing is left of the search but the remarks of the parser on the file. -/
theorem resolveSettings_resolves {w : World} {path : Option Text} {F : LintConfig}
    (h : (w.outcome (loadConfig path)).1 = .ok F) (C : CommandLineSettings) :
    (∃ r, w.outcome (resolveSettings path C) = (r, w.settled path) ∧ Resolves F C r) ∧
    (∀ q, (requests F C).SameRules q → ∀ name, q.requested name = (requests F C).requested name) ∧
    ∀ i rule, Catalog.find? i = some rule
      ↔ rule ∈ Catalog.infos ∧ (i = rule.name.text ∨ Text.lower i = rule.code) := by
  have hF := valid_of_loadConfig h
  refine ⟨⟨combine F C, outcome_resolveSettings_of_loadConfig h C, ?_⟩,
    fun q hq name => hq.requested_eq name, fun i rule => Catalog.find?_eq_some_iff⟩
  by_cases hC : C.Valid
  · exact resolves_combine_of_valid hF hC
  · exact resolves_combine_of_invalid hF hC

/-- A directory with a configuration file. -/
def configuredWorld : World where
  entries := [(["lint.yml"], .file "error: [b001, b003]\n")]

/-- The settings in the file. -/
def configuredSettings : LintConfig where
  error := ["b001", "b003"]

/-- Settings of a command line. -/
def givenSettings : CommandLineSettings where
  warn := ["B003", "B003"]
  skip := ["unique_titles"]
  typoThreshold := some 0

/-- A rule may be named by name and by code in both sources; if it is skipped in one of them,
it is skipped. -/
theorem resolveSettings_resolves_configuredWorld :
    (configuredWorld.outcome (loadConfig (some "lint.yml"))).1 = .ok configuredSettings ∧
      ∃ s, configuredWorld.outcome (resolveSettings (some "lint.yml") givenSettings)
          = (.ok s, configuredWorld.settled (some "lint.yml"))
        ∧ Effective configuredSettings givenSettings s
        ∧ s.options.overrides.get? .uniqueNames = some (.severity .error)
        ∧ s.options.overrides.get? .uniqueTitles = some .skip := by
  have hload : (configuredWorld.outcome (loadConfig (some "lint.yml"))).1
      = .ok configuredSettings := by
    decide +kernel
  obtain ⟨⟨r, hrun, hr⟩, -⟩ := resolveSettings_resolves hload givenSettings
  have hvalid : givenSettings.Valid := by
    refine ⟨by decide, nofun, nofun, ?_⟩
    rintro x ⟨⟩
    exact ⟨0, rfl, by decide⟩
  have hknown : ∀ i ∈ (requests configuredSettings givenSettings).identifiers, Known i := by
    have hfound : ∀ i ∈ (requests configuredSettings givenSettings).identifiers,
        (Catalog.find? i).isSome = true := by
      decide +kernel
    exact fun i hi => Option.isSome_iff_exists.mp (hfound i hi)
  obtain ⟨s, rfl⟩ := hr.succeeds_iff.mpr ⟨hvalid, hknown⟩
  have heffective := hr.effective s rfl
  refine ⟨hload, s, hrun, heffective, ?_, ?_⟩
  · rw [heffective.overrides]
    decide +kernel
  · rw [heffective.overrides]
    decide +kernel

end MetadataBlock
