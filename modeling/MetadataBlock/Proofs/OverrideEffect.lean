import MetadataBlock.Lint.Source
import MetadataBlock.Proofs.RuleReports
import MetadataBlock.Proofs.TableLayout

/-!
# What overrides do to a run

Linting under overrides gives the violations of a run without overrides, with those
of skipped rules left out and those of rules with a set severity at this severity.
No rule sees what another one reports, so nothing else changes, and what the readers
find is not overridden at all.

- `Overrides.relabel`: what overrides make of one violation;
- `Rule.Lawful.apply_eq`, `runRules_eq`: one rule and several rules;
- `lintDocument_eq`: a whole document;
- `origin_of_mem_readAt`: what reading reports bears the name of a reader's check;
- `lint_overrides`: documents and sources.
-/

namespace MetadataBlock

/-- What overrides make of a violation: it is left out, set to a severity, or kept. -/
def Overrides.relabel (overrides : Overrides) (v : Violation) : Option Violation :=
  match v.origin with
  | .reader _ => some v
  | .rule name =>
    match overrides.get? name with
    | some .skip => none
    | some (.severity severity) => some (v.withSeverity severity)
    | none => some v

/-! ## Rules -/

section

variable {ι : Type} {overrides : Overrides} {input : ι}

/-- A rule under overrides reports what it reports without them, relabelled. A lawful rule
finds the same at every severity and marks all of it with its name, so a set severity can be
put on afterwards. -/
theorem Rule.Lawful.apply_eq {rule : Rule ι} (h : rule.Lawful) :
    rule.apply overrides input = (rule.apply [] input).filterMap overrides.relabel := by
  have hrelabel : ∀ v ∈ rule.run rule.defaultSeverity input, overrides.relabel v
      = match overrides.get? rule.name with
        | some .skip => none
        | some (.severity severity) => some (v.withSeverity severity)
        | none => some v := by
    intro v hv
    rw [Overrides.relabel, (h input).origin _ v hv]
  show _ = (rule.run rule.defaultSeverity input).filterMap overrides.relabel
  rw [List.filterMap_congr hrelabel, Rule.apply, RuleInfo.resolve]
  cases overrides.get? rule.name with
  | none => exact List.filterMap_some.symm
  | some o =>
    cases o with
    | skip => exact (List.filterMap_eq_nil_iff.mpr fun _ _ => rfl).symm
    | severity severity =>
      show rule.run severity input = _
      rw [(h input).uniform rule.defaultSeverity severity, List.filterMap_eq_map']

/-- No rule sees what another one reports, so several rules are relabelled one by one. -/
theorem runRules_eq {rules : List (Rule ι)} (h : ∀ rule ∈ rules, rule.Lawful) :
    runRules rules overrides input = (runRules rules [] input).filterMap overrides.relabel := by
  rw [runRules, runRules, List.filterMap_flatMap]
  exact List.flatMap_congr fun rule hrule => (h rule hrule).apply_eq

theorem origin_of_mem_runRules {rules : List (Rule ι)} (h : ∀ rule ∈ rules, rule.Lawful) :
    ∀ v ∈ runRules rules [] input, ∃ name, v.origin = .rule name := by
  intro v hv
  obtain ⟨rule, hrule, hmem⟩ := List.mem_flatMap.mp hv
  exact ⟨rule.name, (h rule hrule input).origin rule.defaultSeverity v hmem⟩

end

/-! ## Documents -/

section

variable (overrides : Overrides) {settings : RuleSettings}

/-- A section is relabelled with its records. -/
theorem lintSection_eq (s : Section) :
    lintSection s ⟨overrides, settings⟩
      = (lintSection s ⟨[], settings⟩).filterMap overrides.relabel := by
  rw [lintSection, lintSection, List.filterMap_append, runRules_eq Catalog.lawful_blockRules,
    List.filterMap_flatMap]
  refine congrArg _ (List.flatMap_congr fun record _ => ?_)
  exact runRules_eq Catalog.lawful_recordRules

/-- Linting a document under overrides relabels the violations. -/
theorem lintDocument_eq (document : Document) :
    lintDocument document ⟨overrides, settings⟩
      = (lintDocument document ⟨[], settings⟩).filterMap overrides.relabel := by
  rw [lintDocument, lintDocument, List.filterMap_append, lintKeywords,
    runRules_eq Catalog.lawful_topLevelRules, List.filterMap_flatMap]
  exact congrArg _ (List.flatMap_congr fun s _ => lintSection_eq overrides s)

end

/-- Every violation of a document is reported by a rule. -/
theorem origin_of_mem_lintDocument {document : Document} {settings : RuleSettings} :
    ∀ v ∈ lintDocument document ⟨[], settings⟩, ∃ name, v.origin = .rule name := by
  intro v hv
  rcases List.mem_append.mp hv with hkeywords | hsections
  · exact origin_of_mem_runRules Catalog.lawful_topLevelRules v hkeywords
  · obtain ⟨s, -, hs⟩ := List.mem_flatMap.mp hsections
    rcases List.mem_append.mp hs with hblock | hrecords
    · exact origin_of_mem_runRules Catalog.lawful_blockRules v hblock
    · obtain ⟨record, -, hrecord⟩ := List.mem_flatMap.mp hrecords
      exact origin_of_mem_runRules Catalog.lawful_recordRules v hrecord

/-! ## Sources -/

theorem origin_of_mem_guess (path : Text) :
    ∀ v ∈ (SourceKind.guess path).2, ∃ check, v.origin = .reader check := by
  rw [SourceKind.guess]
  split
  · exact List.forall_mem_nil _
  · split
    · exact List.forall_mem_singleton.mpr ⟨_, rfl⟩
    · split
      · exact List.forall_mem_nil _
      · exact List.forall_mem_singleton.mpr ⟨_, rfl⟩

/-- What reading YAML reports is a finding of the reader. -/
theorem Yaml.origin_of_mem_read {source : Text} :
    ∀ v ∈ (Yaml.read source).violations, ∃ check, v.origin = .reader check := by
  rw [Yaml.read]
  split
  · exact List.forall_mem_singleton.mpr ⟨_, rfl⟩
  · exact List.forall_mem_nil _
  · split
    · exact List.forall_mem_nil _
    · split
      · exact List.forall_mem_nil _
      · exact List.forall_mem_singleton.mpr ⟨_, rfl⟩

/-- What reading a source reports is a finding of a reader, so no override applies to it. -/
theorem origin_of_mem_readAt {path source : Text} :
    ∀ v ∈ (readAt path source).violations, ∃ check, v.origin = .reader check := by
  have hguess := origin_of_mem_guess path
  intro v hv
  rw [readAt] at hv
  split at hv
  · next violations heq =>
    rw [heq] at hguess
    exact hguess v hv
  · next kind violations heq =>
    rw [heq] at hguess
    rcases List.mem_append.mp hv with hfirst | hread
    · exact hguess v hfirst
    · cases kind with
      | yaml => exact Yaml.origin_of_mem_read v hread
      | tabular => exact Table.origin_of_mem_read v hread

/-- Overrides act on the violations of rules, one by one, and on nothing else. Under any
overrides, linting a document gives the violations found without them, relabelled, in
the same order. Linting a source gives first the same findings of readers. -/
theorem lint_overrides (settings : RuleSettings) :
    (∀ (document : Document) (overrides : Overrides),
        lintDocument document ⟨overrides, settings⟩
          = (lintDocument document ⟨[], settings⟩).filterMap overrides.relabel)
      ∧ ∀ path source : Text, ∃ findings reported : List Violation,
        (∀ v ∈ findings, ∃ check, v.origin = .reader check)
          ∧ (∀ v ∈ reported, ∃ name, v.origin = .rule name)
          ∧ (lintSource path source ⟨[], settings⟩).violations = findings ++ reported
          ∧ ∀ overrides : Overrides,
            lintSource path source ⟨overrides, settings⟩
              = { lintSource path source ⟨[], settings⟩ with
                  violations := findings ++ reported.filterMap overrides.relabel } := by
  refine ⟨fun document overrides => lintDocument_eq overrides document, fun path source => ?_⟩
  refine ⟨(readAt path source).violations, ?_⟩
  cases hdocument : (readAt path source).document with
  | none =>
    refine ⟨[], origin_of_mem_readAt, List.forall_mem_nil _, ?_, fun overrides => ?_⟩
    · rw [lintSource]
      simp only [hdocument, List.append_nil]
    · rw [lintSource, lintSource]
      simp only [hdocument, List.filterMap_nil, List.append_nil]
  | some document =>
    refine ⟨lintDocument document ⟨[], settings⟩, origin_of_mem_readAt, origin_of_mem_lintDocument,
      ?_, fun overrides => ?_⟩
    · rw [lintSource]
      simp only [hdocument]
      rfl
    · rw [lintSource, lintSource]
      simp only [hdocument, validate, lintDocument_eq overrides document]

end MetadataBlock
