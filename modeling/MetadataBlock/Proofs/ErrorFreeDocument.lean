import MetadataBlock.Proofs.ErrorRules

/-!
# Documents without errors

A document is validated without errors if and only if it has the right sections, these
hold records, and the records have the right keys, plain values, names and titles of
their own, and no unsupported nesting. Some rules skip what another rule reports; taken
together they leave no gap.

- `Conforming`: the conditions on a document;
- `nodup_names_iff_pairwise`, `nodup_titles_iff_pairwise`, `nestedVocabulary_iff`: the
  conditions of the rules on names, titles and nesting in terms of the texts of a record;
- `wellFormed_iff_conforming`: the rules taken together;
- `errorFree_validate_iff`: validation.
-/

namespace MetadataBlock

open BlockRules (parent? titleWithParent?)
open RecordRules (NestedVocabulary)
open SectionKeyword (metadataBlock datasetField controlledVocabulary)

/-- The text of the parent of a record; an empty or absent parent is none. -/
def Mapping.parentText (m : Mapping) : Text :=
  (m.text? "parent").getD []

/-- The conditions on a document. -/
structure Conforming (document : Document) : Prop where
  /-- No keyword is given twice. -/
  distinct : document.keys.Nodup
  /-- The keywords are the two required ones, or all three. -/
  complete :
    (∀ t, t ∈ document.keys ↔ t = metadataBlock.text ∨ t = datasetField.text)
      ∨ ∀ t, t ∈ document.keys
          ↔ t = metadataBlock.text ∨ t = datasetField.text ∨ t = controlledVocabulary.text
  /-- Every section is a list of mappings. -/
  lists : ∀ e ∈ document.entries, ∃ items position,
    e.value = .list items position ∧ ∀ item ∈ items, item.isMapping = true
  /-- Every record has the keys that its section requires. -/
  required : ∀ e ∈ document.entries, ∀ k : SectionKeyword, e.key = k.text →
    ∀ r ∈ e.value.records, ∀ key ∈ k.requiredKeys, key ∈ r.keys
  /-- No record has a key that its section does not permit. -/
  permissible : ∀ e ∈ document.entries, ∀ k : SectionKeyword, e.key = k.text →
    ∀ r ∈ e.value.records, ∀ key ∈ r.keys, key ∈ k.permissibleKeys
  /-- Every entry of a record holds a scalar, those of repeated keys included. -/
  scalars : ∀ e ∈ document.entries, ∀ r ∈ e.value.records, ∀ f ∈ r.entries, f.value.isScalar = true
  /-- In the first two sections no two records have one name. -/
  names : ∀ e ∈ document.entries, e.key = metadataBlock.text ∨ e.key = datasetField.text →
    e.value.records.Pairwise fun r r' => ∀ name,
      r.text? "name" = some name → r'.text? "name" ≠ some name
  /-- No two fields below one parent have one title. -/
  titles : ∀ e ∈ document.entries, e.key = datasetField.text →
    e.value.records.Pairwise fun r r' => ∀ title,
      r.text? "title" = some title → r'.text? "title" = some title → r.parentText ≠ r'.parentText
  /-- No field below a parent takes several values of a controlled vocabulary. -/
  nested : ∀ e ∈ document.entries, e.key = datasetField.text → ∀ r ∈ e.value.records,
    ¬ (r.parentText ≠ [] ∧ r.scalar? "allowmultiples" = some (.bool true)
      ∧ r.scalar? "allowControlledVocabulary" = some (.bool true))

/-! ## The conditions of the rules -/

theorem parent?_eq (r : Mapping) :
    parent? r = if r.parentText = [] then none else some r.parentText := by
  rw [parent?, Mapping.parentText]
  cases r.text? "parent" with
  | none => rfl
  | some p =>
    cases p with
    | nil => rfl
    | cons u rest => rfl

/-- Two records have the same parent if the texts are the same, since an empty text stands for
no parent. -/
theorem parent?_eq_iff {r r' : Mapping} : parent? r = parent? r' ↔ r.parentText = r'.parentText := by
  rw [parent?_eq, parent?_eq]
  constructor
  · intro h
    by_cases hr : r.parentText = []
    · by_cases hr' : r'.parentText = []
      · rw [hr, hr']
      · rw [if_pos hr, if_neg hr'] at h
        cases h
    · by_cases hr' : r'.parentText = []
      · rw [if_neg hr, if_pos hr'] at h
        cases h
      · rw [if_neg hr, if_neg hr'] at h
        exact Option.some.inj h
  · intro h
    rw [h]

/-- The names that are there are distinct if no two records have one name. -/
theorem nodup_names_iff_pairwise {records : List Mapping} :
    (records.filterMap (·.text? "name")).Nodup
      ↔ records.Pairwise fun r r' => ∀ name,
          r.text? "name" = some name → r'.text? "name" ≠ some name := by
  rw [List.Nodup, List.pairwise_filterMap]
  refine List.Pairwise.iff fun r r' => ?_
  constructor
  · intro h name hname hname'
    exact h name hname name hname' rfl
  · rintro h name hname name' hname' rfl
    exact h name hname hname'

/-- Titles with their parents are distinct if no two records below one parent have one
title. -/
theorem nodup_titles_iff_pairwise {records : List Mapping} :
    (records.filterMap titleWithParent?).Nodup
      ↔ records.Pairwise fun r r' => ∀ title, r.text? "title" = some title →
          r'.text? "title" = some title → r.parentText ≠ r'.parentText := by
  rw [List.Nodup, List.pairwise_filterMap]
  refine List.Pairwise.iff fun r r' => ?_
  constructor
  · intro h title htitle htitle' hparent
    refine h (title, parent? r) ?_ (title, parent? r') ?_ ?_
    · rw [titleWithParent?, htitle, Option.map_some]
    · rw [titleWithParent?, htitle', Option.map_some]
    · rw [parent?_eq_iff.mpr hparent]
  · rintro h ⟨title, parent⟩ hpair _ hpair' rfl
    rw [titleWithParent?, Option.map_eq_some_iff] at hpair hpair'
    obtain ⟨t, htitle, heq⟩ := hpair
    obtain ⟨t', htitle', heq'⟩ := hpair'
    obtain ⟨ht, hparent⟩ := Prod.mk.inj heq
    obtain ⟨ht', hparent'⟩ := Prod.mk.inj heq'
    rw [ht] at htitle
    rw [ht'] at htitle'
    exact h title htitle htitle' (parent?_eq_iff.mp (hparent.trans hparent'.symm))

theorem nestedVocabulary_iff {r : Mapping} :
    NestedVocabulary r ↔ r.parentText ≠ [] ∧ r.scalar? "allowmultiples" = some (.bool true)
      ∧ r.scalar? "allowControlledVocabulary" = some (.bool true) := by
  rw [NestedVocabulary, parent?_eq]
  refine and_congr_left fun _ => ?_
  by_cases hparent : r.parentText = []
  · simp [hparent]
  · simp [hparent]

theorem holdsRecords_iff {n : Node} : n.HoldsRecords
    ↔ ∃ items position, n = .list items position ∧ ∀ item ∈ items, item.isMapping = true := by
  constructor
  · rintro ⟨records, position, rfl⟩
    exact ⟨_, position, rfl, holdsRecords_list_iff.mp ⟨records, position, rfl⟩⟩
  · rintro ⟨items, position, rfl, hitems⟩
    exact holdsRecords_list_iff.mpr hitems

/-! ## Documents -/

/-- A document that no error rule objects to meets the conditions. A rule on the records of a
section looks at records only, so the condition that the section holds nothing else comes from
the rule on blocks. -/
theorem WellFormed.conforming {document : Document} (h : WellFormed document) :
    Conforming document := by
  have hsection : ∀ e ∈ document.entries, ∃ k, WellFormedSection ⟨e.key, e.value⟩ k :=
    fun e he => h.sections _ (mem_sections.mpr ⟨e, he, rfl⟩)
  -- the keyword of a section tells which conditions hold of it
  have hknown : ∀ e ∈ document.entries, ∀ k : SectionKeyword, e.key = k.text →
      WellFormedSection ⟨e.key, e.value⟩ k := by
    intro e he k hk
    obtain ⟨k', hs⟩ := hsection e he
    rwa [SectionKeyword.text_injective (hs.keyword.symm.trans hk)] at hs
  refine ⟨h.keywords.distinct, ?_, ?_, ?_, ?_, ?_, ?_, ?_, ?_⟩
  · rcases h.keywords.complete with hvalid | hrequired
    · exact .inr fun t => (hvalid t).trans KeywordRules.mem_validKeywords_iff
    · exact .inl fun t => (hrequired t).trans KeywordRules.mem_requiredKeywords_iff
  · intro e he
    obtain ⟨k, hs⟩ := hsection e he
    exact holdsRecords_iff.mp hs.block.list
  · intro e he k hk r hr
    exact ((hknown e he k hk).records r hr).required
  · intro e he k hk r hr
    exact ((hknown e he k hk).records r hr).permissible
  · intro e he r hr
    obtain ⟨k, hs⟩ := hsection e he
    exact (hs.records r hr).scalars
  · rintro e he (hk | hk)
    · exact nodup_names_iff_pairwise.mp ((hknown e he _ hk).block.names (by decide))
    · exact nodup_names_iff_pairwise.mp ((hknown e he _ hk).block.names (by decide))
  · intro e he hk
    exact nodup_titles_iff_pairwise.mp ((hknown e he _ hk).block.titles rfl)
  · intro e he hk r hr
    rw [← nestedVocabulary_iff]
    exact ((hknown e he _ hk).records r hr).nested rfl

/-- No error rule objects to a document that meets the conditions. Its keywords are known, so
every section has the keys that go with its keyword. -/
theorem Conforming.wellFormed {document : Document} (h : Conforming document) :
    WellFormed document := by
  have hkeywords : WellFormedKeywords document.keys := by
    refine ⟨h.distinct, ?_⟩
    rcases h.complete with hrequired | hvalid
    · exact .inr fun t => (hrequired t).trans KeywordRules.mem_requiredKeywords_iff.symm
    · exact .inl fun t => (hvalid t).trans KeywordRules.mem_validKeywords_iff.symm
  refine ⟨hkeywords, fun s hs => ?_⟩
  obtain ⟨e, he, rfl⟩ := mem_sections.mp hs
  obtain ⟨k, hk⟩ := hkeywords.keyword_known e.key (List.mem_map_of_mem he)
  refine ⟨k, hk, ⟨holdsRecords_iff.mpr (h.lists e he), ?_, ?_⟩, fun r hr => ⟨?_, ?_, ?_, ?_⟩⟩
  · intro hvocabulary
    refine nodup_names_iff_pairwise.mpr (h.names e he ?_)
    cases k with
    | metadataBlock => exact .inl hk
    | datasetField => exact .inr hk
    | controlledVocabulary => exact absurd rfl hvocabulary
  · rintro rfl
    exact nodup_titles_iff_pairwise.mpr (h.titles e he hk)
  · exact h.required e he k hk r hr
  · exact h.permissible e he k hk r hr
  · exact h.scalars e he r hr
  · rintro rfl
    rw [nestedVocabulary_iff]
    exact h.nested e he hk r hr

theorem wellFormed_iff_conforming {document : Document} :
    WellFormed document ↔ Conforming document :=
  ⟨WellFormed.conforming, Conforming.wellFormed⟩

/-- A document is validated without errors if and only if it meets the conditions. Each rule
that reports errors has its own condition, and together with the defaults of their severities
these are the conditions on the whole. -/
theorem errorFree_validate_iff (document : Document) (settings : RuleSettings) :
    ErrorFree (validate document ⟨[], settings⟩).violations ↔ Conforming document :=
  errorFree_lintDocument_iff.trans wellFormed_iff_conforming

end MetadataBlock
