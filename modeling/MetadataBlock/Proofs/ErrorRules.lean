import Mathlib.Data.List.Perm.Subperm
import MetadataBlock.Lint.Validation
import MetadataBlock.Proofs.FirstOccurrence
import MetadataBlock.Proofs.RecordFields
import MetadataBlock.Proofs.RuleReports
import MetadataBlock.Proofs.SectionOrder

/-!
# What the error rules say

A run without overrides reports no error if and only if no error rule finds
anything, and every error rule has a property of its input that it checks.

- `ErrorFree`, `errorFree_runRules`: no error among the violations of some rules;
- `WellFormedKeywords`, `WellFormedBlock`, `WellFormedRecord`: what the error rules
  of the three scopes check, with one lemma for each rule on when it finds nothing;
- `WellFormed`, `errorFree_lintDocument_iff`: all of them on a document.
-/

namespace MetadataBlock

/-- None of the violations is an error. -/
def ErrorFree (violations : List Violation) : Prop :=
  ∀ v ∈ violations, v.isError = false

theorem errorFree_nil : ErrorFree [] :=
  List.forall_mem_nil _

theorem errorFree_append {vs ws : List Violation} :
    ErrorFree (vs ++ ws) ↔ ErrorFree vs ∧ ErrorFree ws :=
  List.forall_mem_append

/-- What several inputs find together has no error if none of their findings has one. -/
theorem errorFree_flatMap {α : Type} {f : α → List Violation} {l : List α} :
    ErrorFree (l.flatMap f) ↔ ∀ a ∈ l, ErrorFree (f a) := by
  constructor
  · intro h a ha v hv
    exact h v (List.mem_flatMap.mpr ⟨a, ha, hv⟩)
  · intro h v hv
    obtain ⟨a, ha, hmem⟩ := List.mem_flatMap.mp hv
    exact h a ha v hmem

section

variable {ι : Type} {input : ι}

/-- A rule that runs at severity error and reports no error finds nothing. A lawful rule gives
its severity to all that it reports, so a single violation would be an error. -/
theorem Rule.Lawful.run_error_eq_nil {rule : Rule ι} (h : rule.Lawful)
    (hfree : ErrorFree (rule.run .error input)) : rule.run .error input = [] := by
  rw [List.eq_nil_iff_forall_not_mem]
  intro v hv
  have herror := hfree v hv
  rw [Violation.isError, (h input).severity_eq hv] at herror
  cases herror

/-- A rule reports an error if its severity is error and it finds something. -/
theorem errorFree_apply {rule : Rule ι} (h : rule.Lawful) :
    ErrorFree (rule.apply [] input)
      ↔ (rule.defaultSeverity = .error → rule.run .error input = []) := by
  show ErrorFree (rule.run rule.defaultSeverity input) ↔ _
  constructor
  · intro hfree hseverity
    rw [hseverity] at hfree
    exact h.run_error_eq_nil hfree
  · intro hnil v hv
    rw [Violation.isError, (h input).severity_eq hv, beq_eq_false_iff_ne]
    intro hseverity
    rw [hseverity, hnil hseverity] at hv
    cases hv

/-- Rules that run without overrides report no error if and only if every rule whose default
severity is error finds nothing. Whatever the other rules find is no error, so they drop out of
all that follows. -/
theorem errorFree_runRules {rules : List (Rule ι)} (h : ∀ rule ∈ rules, rule.Lawful) :
    ErrorFree (runRules rules [] input)
      ↔ ∀ rule ∈ rules, rule.defaultSeverity = .error → rule.run .error input = [] := by
  rw [runRules, errorFree_flatMap]
  exact forall₂_congr fun rule hrule => errorFree_apply (h rule hrule)

end

/-! ## Keywords -/

namespace SectionKeyword

theorem ofText?_text (k : SectionKeyword) : ofText? k.text = some k := by
  cases k <;> decide

/-- Keywords with the same text are the same, as a keyword can be read back from its text. -/
theorem text_injective {k k' : SectionKeyword} (h : k.text = k'.text) : k = k' := by
  have hfound := ofText?_text k
  rw [h, ofText?_text] at hfound
  exact (Option.some.inj hfound).symm

end SectionKeyword

namespace KeywordRules

theorem mem_validKeywords {t : Text} : t ∈ validKeywords ↔ ∃ k : SectionKeyword, t = k.text := by
  rw [validKeywords, List.mem_map]
  constructor
  · rintro ⟨k, -, rfl⟩
    exact ⟨k, rfl⟩
  · rintro ⟨k, rfl⟩
    exact ⟨k, by cases k <;> decide, rfl⟩

open SectionKeyword (metadataBlock datasetField controlledVocabulary) in
theorem mem_validKeywords_iff {t : Text} : t ∈ validKeywords
    ↔ t = metadataBlock.text ∨ t = datasetField.text ∨ t = controlledVocabulary.text := by
  simp [validKeywords, SectionKeyword.all]

open SectionKeyword (metadataBlock datasetField) in
theorem mem_requiredKeywords_iff {t : Text} :
    t ∈ requiredKeywords ↔ t = metadataBlock.text ∨ t = datasetField.text := by
  simp [requiredKeywords, SectionKeyword.requiredOnes]

theorem requiredKeywords_subset : ∀ t ∈ requiredKeywords, t ∈ validKeywords := by
  decide

/-- Two lists form the same set if they have the same members. The test compares the lengths
without repetitions and one inclusion; the other inclusion follows by counting. -/
theorem formSet_iff {keywords expected : List Text} (hexpected : expected.Nodup) :
    formSet keywords expected = true ↔ ∀ t, t ∈ keywords ↔ t ∈ expected := by
  rw [formSet, Bool.and_eq_true, beq_iff_eq, distinct_eq, List.all_eq_true]
  have hnodup := nodup_eraseDups keywords
  constructor
  · rintro ⟨hlength, hall⟩ t
    -- distinct elements of a list of the same length are all of its elements
    have hsubset : expected ⊆ keywords.eraseDups := fun a ha =>
      List.mem_eraseDups.mpr (List.contains_iff_mem.mp (hall a ha))
    have hperm := (hexpected.subperm hsubset).perm_of_length_le (Nat.le_of_eq hlength)
    rw [hperm.mem_iff, List.mem_eraseDups]
  · intro h
    refine ⟨?_, fun a ha => List.contains_iff_mem.mpr ((h a).mpr ha)⟩
    refine ((List.perm_ext_iff_of_nodup hnodup hexpected).mpr fun t => ?_).length_eq
    rw [List.mem_eraseDups, h]

/-- What is repeated, given the texts seen and the repetitions found so far. The induction goes
along the texts; nothing comes out if nothing was found before, no text has been seen and none
follows twice. -/
theorem repeated_go_eq_nil_iff {seen found texts : List Text} :
    repeated.go seen found texts = [] ↔ found = [] ∧ texts.Nodup ∧ ∀ t ∈ texts, t ∉ seen := by
  induction texts generalizing seen found with
  | nil => simp [repeated.go]
  | cons t texts ih =>
    rw [repeated.go]
    by_cases hseen : t ∈ seen
    · rw [if_pos (List.contains_iff_mem.mpr hseen), ih]
      constructor
      · rintro ⟨hfound, -⟩
        -- a repetition was found, and what was found stays
        split at hfound
        · next hmem =>
          rw [hfound] at hmem
          cases hmem
        · exact absurd hfound (List.append_ne_nil_of_right_ne_nil _ (List.cons_ne_nil _ _))
      · rintro ⟨-, -, hfresh⟩
        exact absurd hseen (hfresh t List.mem_cons_self)
    · rw [if_neg fun hc => hseen (List.contains_iff_mem.mp hc), ih]
      refine and_congr_right fun _ => ?_
      rw [List.nodup_cons, List.forall_mem_cons]
      constructor
      · rintro ⟨hnodup, hfresh⟩
        refine ⟨⟨fun hmem => hfresh t hmem List.mem_cons_self, hnodup⟩, hseen, fun a ha hold => ?_⟩
        exact hfresh a ha (List.mem_cons_of_mem _ hold)
      · rintro ⟨⟨hnew, hnodup⟩, -, hfresh⟩
        refine ⟨hnodup, fun a ha hmem => ?_⟩
        rcases List.mem_cons.mp hmem with rfl | hold
        · exact hnew ha
        · exact hfresh a ha hold

theorem repeated_eq_nil_iff {texts : List Text} : repeated texts = [] ↔ texts.Nodup := by
  rw [repeated, repeated_go_eq_nil_iff]
  simp

end KeywordRules

open KeywordRules in
/-- The keywords are the valid ones or just the required ones, each given once. -/
structure WellFormedKeywords (keywords : List Text) : Prop where
  distinct : keywords.Nodup
  complete : (∀ t, t ∈ keywords ↔ t ∈ validKeywords) ∨ (∀ t, t ∈ keywords ↔ t ∈ requiredKeywords)

namespace KeywordRules

/-- The rule on valid keywords finds nothing if they are all the valid ones or just the
required ones, as sets. -/
theorem valid_run_eq_nil_iff {severity : Severity} {input : KeywordsInput} :
    valid.run severity input = []
      ↔ (∀ t, t ∈ input.keywords ↔ t ∈ validKeywords)
      ∨ (∀ t, t ∈ input.keywords ↔ t ∈ requiredKeywords) := by
  rw [← formSet_iff (by decide), ← formSet_iff (by decide), ← Bool.or_eq_true]
  show (if _ then _ else _) = [] ↔ _
  by_cases h : (formSet input.keywords validKeywords || formSet input.keywords requiredKeywords) = true
  · rw [if_pos h]
    exact ⟨fun _ => h, fun _ => rfl⟩
  · rw [if_neg h]
    exact ⟨fun hnil => (nomatch hnil), fun hset => absurd hset h⟩

/-- The rule on unique keywords finds nothing if none is repeated. -/
theorem unique_run_eq_nil_iff {severity : Severity} {input : KeywordsInput} :
    unique.run severity input = [] ↔ input.keywords.Nodup := by
  rw [← repeated_eq_nil_iff, unique]
  simp only
  split
  · next h => exact ⟨fun _ => h, fun _ => rfl⟩
  · next duplicates h =>
    constructor
    · intro hnil
      cases hnil
    · intro hnil
      exact absurd hnil h

end KeywordRules

/-- Both rules on keywords are errors by default, so together they say when keywords are well
formed. -/
theorem errorFree_lintKeywords_iff {document : Document} {settings : RuleSettings} :
    ErrorFree (lintKeywords document ⟨[], settings⟩) ↔ WellFormedKeywords document.keys := by
  rw [lintKeywords, errorFree_runRules Catalog.lawful_topLevelRules, Catalog.topLevelRules, List.forall_mem_cons,
    List.forall_mem_singleton, KeywordRules.valid_run_eq_nil_iff,
    KeywordRules.unique_run_eq_nil_iff]
  constructor
  · rintro ⟨hcomplete, hdistinct⟩
    exact ⟨hdistinct rfl, hcomplete rfl⟩
  · rintro ⟨hdistinct, hcomplete⟩
    exact ⟨fun _ => hcomplete, fun _ => hdistinct⟩

/-! ## Blocks -/

theorem isMapping_iff {n : Node} : n.isMapping = true ↔ ∃ m : Mapping, n = m.toNode := by
  cases n with
  | scalar value position => exact ⟨fun h => (nomatch h), fun ⟨_, h⟩ => (nomatch h)⟩
  | list items position => exact ⟨fun h => (nomatch h), fun ⟨_, h⟩ => (nomatch h)⟩
  | mapping entries position => exact ⟨fun _ => ⟨⟨entries, position⟩, rfl⟩, fun _ => rfl⟩

/-- A list holds records if all of its items are mappings. -/
theorem holdsRecords_list_iff {items : List Node} {position : Option Position} :
    (Node.list items position).HoldsRecords ↔ ∀ item ∈ items, item.isMapping = true := by
  constructor
  · rintro ⟨records, p, h⟩ item hitem
    cases h
    obtain ⟨r, -, rfl⟩ := List.mem_map.mp hitem
    rfl
  · intro h
    refine ⟨items.filterMap Node.mapping?, position, congrArg (Node.list · position) ?_⟩
    induction items with
    | nil => rfl
    | cons item items ih =>
      rw [List.forall_mem_cons] at h
      obtain ⟨m, rfl⟩ := isMapping_iff.mp h.1
      have hitem : m.toNode.mapping? = some m := rfl
      rw [List.filterMap_cons_some hitem, List.map_cons, ← ih h.2]

namespace BlockRules

/-- The rule that a section is a list also reports items that are no records, so it finds
nothing only in a list of records. -/
theorem isList_run_eq_nil_iff {severity : Severity} {input : BlockInput} :
    isList.run severity input = [] ↔ input.block.HoldsRecords := by
  obtain ⟨keyword, block, settings⟩ := input
  cases block with
  | scalar value position =>
    exact ⟨fun h => (nomatch h), fun ⟨_, _, h⟩ => (nomatch h)⟩
  | mapping entries position =>
    exact ⟨fun h => (nomatch h), fun ⟨_, _, h⟩ => (nomatch h)⟩
  | list items position =>
    rw [holdsRecords_list_iff]
    show (items.zipIdx 1).filterMap _ = [] ↔ _
    rw [List.filterMap_eq_nil_iff]
    constructor
    · intro h item hitem
      rw [← List.zipIdx_map_fst 1 items] at hitem
      obtain ⟨⟨_, n⟩, hn, rfl⟩ := List.mem_map.mp hitem
      by_contra hmapping
      exact absurd ((if_neg hmapping).symm.trans (h _ hn)) (Option.some_ne_none _)
    · rintro h ⟨item, n⟩ hn
      have hmapping := h item (List.fst_mem_of_mem_zipIdx hn)
      exact if_pos hmapping

/-- Reporting the groups of two or more comes to nothing if no key occurs twice. This is what
the rules on names and on titles have in common. -/
theorem filterMap_groups_eq_nil_iff {κ : Type} [DecidableEq κ] {keyOf : Mapping → Option κ}
    {records : List Mapping} {found : κ × List Mapping → Violation} :
    (groupBy keyOf records).filterMap (fun g =>
        if 2 ≤ g.2.length then some (found g) else none) = []
      ↔ (records.filterMap keyOf).Nodup := by
  rw [← groupBy_lt_two_iff, List.filterMap_eq_nil_iff]
  refine forall₂_congr fun g _ => ?_
  constructor
  · intro h
    by_contra hlength
    rw [if_pos (Nat.not_lt.mp hlength)] at h
    cases h
  · intro h
    exact if_neg (Nat.not_le.mpr h)

/-- The rule on names looks at the first two sections, and at those records only that have a
name. -/
theorem uniqueNames_run_eq_nil_iff {severity : Severity} {k : SectionKeyword} {block : Node}
    {settings : RuleSettings} :
    uniqueNames.run severity ⟨k.text, block, settings⟩ = []
      ↔ (k ≠ .controlledVocabulary → (block.records.filterMap (·.text? "name")).Nodup) := by
  rw [uniqueNames]
  simp only [SectionKeyword.ofText?_text]
  cases k with
  | metadataBlock => exact filterMap_groups_eq_nil_iff.trans ⟨fun h _ => h, fun h => h (by decide)⟩
  | datasetField => exact filterMap_groups_eq_nil_iff.trans ⟨fun h _ => h, fun h => h (by decide)⟩
  | controlledVocabulary => exact ⟨fun _ h => absurd rfl h, fun _ => rfl⟩

/-- The rule on titles looks at fields, and compares each title together with the parent. -/
theorem uniqueTitles_run_eq_nil_iff {severity : Severity} {k : SectionKeyword} {block : Node}
    {settings : RuleSettings} :
    uniqueTitles.run severity ⟨k.text, block, settings⟩ = []
      ↔ (k = .datasetField → (block.records.filterMap titleWithParent?).Nodup) := by
  rw [uniqueTitles]
  simp only [SectionKeyword.ofText?_text]
  cases k with
  | metadataBlock => exact ⟨fun _ h => absurd h (by decide), fun _ => rfl⟩
  | datasetField => exact filterMap_groups_eq_nil_iff.trans ⟨fun h _ => h, fun h => h rfl⟩
  | controlledVocabulary => exact ⟨fun _ h => absurd h (by decide), fun _ => rfl⟩

end BlockRules

/-- A section holds records, with distinct names in the first two sections and
distinct titles among the fields below one parent. -/
structure WellFormedBlock (k : SectionKeyword) (block : Node) : Prop where
  list : block.HoldsRecords
  names : k ≠ .controlledVocabulary → (block.records.filterMap (·.text? "name")).Nodup
  titles : k = .datasetField → (block.records.filterMap BlockRules.titleWithParent?).Nodup

/-! ## Records -/

namespace RecordRules

variable {severity : Severity} {k : SectionKeyword} {record : Mapping} {settings : RuleSettings}

/-- A record lacks no required key if all of them are among its keys, whatever they hold. -/
theorem requiredKeysPresent_run_eq_nil_iff :
    requiredKeysPresent.run severity ⟨k.text, record, settings⟩ = []
      ↔ ∀ key ∈ k.requiredKeys, key ∈ record.keys := by
  rw [requiredKeysPresent]
  simp only [SectionKeyword.ofText?_text]
  have hmissing : k.requiredKeys.filter (fun key => (record.entry? key).isNone) = []
      ↔ ∀ key ∈ k.requiredKeys, key ∈ record.keys := by
    rw [List.filter_eq_nil_iff]
    refine forall₂_congr fun key _ => ?_
    rw [Mapping.isNone_entry?_iff, not_not]
  rw [← hmissing]
  split
  · next h => exact ⟨fun _ => h, fun _ => rfl⟩
  · next missing h =>
    exact ⟨fun hnil => absurd hnil (List.cons_ne_nil _ _), fun hnil => absurd hnil h⟩

/-- Each key is looked at where it stands, so a key that is given twice is checked twice. -/
theorem keysValid_run_eq_nil_iff :
    keysValid.run severity ⟨k.text, record, settings⟩ = []
      ↔ ∀ key ∈ record.keys, key ∈ k.permissibleKeys := by
  rw [keysValid]
  simp only [SectionKeyword.ofText?_text]
  rw [List.map_eq_nil_iff, List.filter_eq_nil_iff, Mapping.keys, List.forall_mem_map]
  refine forall₂_congr fun e _ => ?_
  rw [Bool.not_eq_true', Bool.not_eq_false, List.contains_iff_mem]

theorem noSubstructures_run_eq_nil_iff {input : RecordInput} :
    noSubstructures.run severity input = []
      ↔ ∀ e ∈ input.record.entries, e.value.isScalar = true := by
  rw [noSubstructures]
  simp only
  rw [List.map_eq_nil_iff, List.filter_eq_nil_iff]
  refine forall₂_congr fun e _ => ?_
  rw [Bool.not_eq_true', Bool.not_eq_false]

/-- A field below a parent that takes several values of a controlled vocabulary. -/
def NestedVocabulary (record : Mapping) : Prop :=
  (BlockRules.parent? record).isSome = true ∧ record.scalar? "allowmultiples" = some (.bool true)
    ∧ record.scalar? "allowControlledVocabulary" = some (.bool true)

/-- The rule on nested fields finds nothing in the other sections. -/
theorem nestedVocabulary_run_eq_nil_iff :
    nestedCompoundMetadataControlledVocab.run severity ⟨k.text, record, settings⟩ = []
      ↔ (k = .datasetField → ¬ NestedVocabulary record) := by
  rw [nestedCompoundMetadataControlledVocab, nestedCompound]
  simp only
  have hnested : isNestedMultiple ⟨k.text, record, settings⟩ true = true
      ↔ k = .datasetField ∧ NestedVocabulary record := by
    rw [isNestedMultiple, SectionKeyword.ofText?_text, holdsBool, holdsBool, NestedVocabulary]
    simp only [Bool.and_eq_true, beq_iff_eq, Option.some_inj, and_assoc]
  rw [← not_and, ← hnested]
  split
  · next h => exact ⟨fun hnil => absurd hnil (List.cons_ne_nil _ _), fun hnot => absurd h hnot⟩
  · next h => exact ⟨fun _ => h, fun _ => rfl⟩

end RecordRules

/-- A record has the keys that its section requires and none that it does not permit,
and its values are scalars. Fields below a parent do not take several values of a
controlled vocabulary. -/
structure WellFormedRecord (k : SectionKeyword) (record : Mapping) : Prop where
  required : ∀ key ∈ k.requiredKeys, key ∈ record.keys
  permissible : ∀ key ∈ record.keys, key ∈ k.permissibleKeys
  scalars : ∀ e ∈ record.entries, e.value.isScalar = true
  nested : k = .datasetField → ¬ RecordRules.NestedVocabulary record

/-! ## Documents -/

/-- A section with a known keyword whose block and records are well formed. -/
structure WellFormedSection (s : Section) (k : SectionKeyword) : Prop where
  keyword : s.keyword = k.text
  block : WellFormedBlock k s.block
  records : ∀ r ∈ s.block.records, WellFormedRecord k r

/-- The errors among the rules on records. The other rules on records are warnings or notes,
and say nothing about the errors of a run. -/
theorem errorFree_lintRecord_iff {k : SectionKeyword} {record : Mapping} {settings : RuleSettings} :
    ErrorFree (lintRecord k.text record ⟨[], settings⟩) ↔ WellFormedRecord k record := by
  rw [lintRecord, errorFree_runRules Catalog.lawful_recordRules, Catalog.recordRules]
  simp only [List.forall_mem_cons]
  rw [RecordRules.requiredKeysPresent_run_eq_nil_iff, RecordRules.keysValid_run_eq_nil_iff,
    RecordRules.noSubstructures_run_eq_nil_iff, RecordRules.nestedVocabulary_run_eq_nil_iff]
  constructor
  · rintro ⟨hrequired, hpermissible, hscalars, -, -, hnested, -⟩
    exact ⟨hrequired rfl, hpermissible rfl, hscalars rfl, hnested rfl⟩
  · rintro ⟨hrequired, hpermissible, hscalars, hnested⟩
    -- two of the six rules only warn
    exact ⟨fun _ => hrequired, fun _ => hpermissible, fun _ => hscalars,
      fun h => absurd h (by decide), fun h => absurd h (by decide), fun _ => hnested,
      List.forall_mem_nil _⟩

/-- The errors in a section are those of its block and of each of its records. -/
theorem errorFree_lintSection_iff {s : Section} {k : SectionKeyword} (hkeyword : s.keyword = k.text)
    {settings : RuleSettings} :
    ErrorFree (lintSection s ⟨[], settings⟩) ↔ WellFormedSection s k := by
  rw [lintSection, errorFree_append, errorFree_runRules Catalog.lawful_blockRules, errorFree_flatMap, hkeyword,
    Catalog.blockRules]
  simp only [List.forall_mem_cons, errorFree_lintRecord_iff]
  rw [BlockRules.isList_run_eq_nil_iff, BlockRules.uniqueNames_run_eq_nil_iff,
    BlockRules.uniqueTitles_run_eq_nil_iff]
  constructor
  · rintro ⟨⟨hlist, hnames, htitles, -, -⟩, hrecords⟩
    exact ⟨hkeyword, ⟨hlist rfl, hnames rfl, htitles rfl⟩, hrecords⟩
  · rintro ⟨-, ⟨hlist, hnames, htitles⟩, hrecords⟩
    exact ⟨⟨fun _ => hlist, fun _ => hnames, fun _ => htitles, fun h => absurd h (by decide),
      List.forall_mem_nil _⟩, hrecords⟩

/-- A document that no error rule objects to. -/
structure WellFormed (document : Document) : Prop where
  keywords : WellFormedKeywords document.keys
  sections : ∀ s ∈ document.sections, ∃ k, WellFormedSection s k

/-- The keywords of a document with an acceptable list of keywords are all known. -/
theorem WellFormedKeywords.keyword_known {keywords : List Text} (h : WellFormedKeywords keywords) :
    ∀ t ∈ keywords, ∃ k : SectionKeyword, t = k.text := by
  intro t ht
  rw [← KeywordRules.mem_validKeywords]
  rcases h.complete with hvalid | hrequired
  · exact (hvalid t).mp ht
  · exact KeywordRules.requiredKeywords_subset t ((hrequired t).mp ht)

/-- No error is reported if and only if the document is well formed. Keywords without errors
are known ones, so every section is checked by the rules of its keyword. -/
theorem errorFree_lintDocument_iff {document : Document} {settings : RuleSettings} :
    ErrorFree (lintDocument document ⟨[], settings⟩) ↔ WellFormed document := by
  rw [lintDocument, errorFree_append, errorFree_flatMap, errorFree_lintKeywords_iff]
  constructor
  · rintro ⟨hkeywords, hsections⟩
    refine ⟨hkeywords, fun s hs => ?_⟩
    obtain ⟨e, he, rfl⟩ := mem_sections.mp hs
    obtain ⟨k, hk⟩ := hkeywords.keyword_known e.key (List.mem_map_of_mem he)
    exact ⟨k, (errorFree_lintSection_iff hk).mp (hsections _ hs)⟩
  · rintro ⟨hkeywords, hsections⟩
    refine ⟨hkeywords, fun s hs => ?_⟩
    obtain ⟨k, hsection⟩ := hsections s hs
    exact (errorFree_lintSection_iff hsection.keyword).mpr hsection

end MetadataBlock
