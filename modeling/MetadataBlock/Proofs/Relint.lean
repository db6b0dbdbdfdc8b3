import MetadataBlock.Lint.Source
import MetadataBlock.Proofs.DecodedRecords
import MetadataBlock.Proofs.LintedSource
import MetadataBlock.Proofs.TableSource
import MetadataBlock.Proofs.WellFormedTable

/-!
# Linting what was written

A document without errors that is written as a table and linted again has errors
only if decoding its cells makes two names or two titles equal, or turns texts into
truth values that a nested field must not have. A document that was read from a
table has none.

- `DecodesApart`: decoding keeps the records of a section apart;
- `wellFormedSection_iff`, `wellFormed_iff_allDecodeApart`: a section, and a document,
  that is read back is well formed if and only if its source decodes apart;
- `errorFree_lintSource_render_iff`: the outcome of linting a converted source.
-/

namespace MetadataBlock

open BlockRules (parent? titleWithParent?)
open RecordRules (NestedVocabulary)

/-! ## Keys of some elements -/

section

variable {α κ : Type} {l : List α} {key key' : α → Option κ} {keep : α → Bool}

/-- Keys are distinct among all elements if they are among the kept ones, provided that the
others have blank keys and that blank keys were distinct before. Two equal keys with one of
them blank would have been equal from the start. -/
theorem nodup_filterMap_filter_iff (blank : κ → Prop) (hnodup : (l.filterMap key).Nodup)
    (hdropped : ∀ a ∈ l, keep a = false → ∀ k, key' a = some k → blank k)
    (hblank : ∀ a k, key' a = some k → blank k → key a = some k) :
    ((l.filter keep).filterMap key').Nodup ↔ (l.filterMap key').Nodup := by
  rw [List.nodup_iff_pairwise_ne, List.pairwise_filterMap] at hnodup ⊢
  rw [List.pairwise_filter, List.nodup_iff_pairwise_ne, List.pairwise_filterMap]
  constructor
  · intro hkept
    refine (List.Pairwise.and hnodup hkept).imp_of_mem ?_
    rintro a b ha hb ⟨hbefore, hboth⟩ k hk k' hk' rfl
    -- one of the two is dropped, so their common key is blank and was common before
    have hcommon : ¬ blank k := fun h => hbefore k (hblank a k hk h) k (hblank b k hk' h) rfl
    cases hkeep : keep a with
    | false => exact hcommon (hdropped a ha hkeep k hk)
    | true =>
      cases hkeep' : keep b with
      | false => exact hcommon (hdropped b hb hkeep' k hk')
      | true => exact hboth hkeep hkeep' k hk k hk' rfl
  · intro hall
    exact hall.imp fun hab _ _ => hab

/-- Elements that correspond to each other with their keys have the same keys. -/
theorem filterMap_eq_of_forall₂ {β : Type} {l' : List β} {f : α → Option κ} {g : β → Option κ}
    (h : List.Forall₂ (fun a b => g b = f a) l l') : l'.filterMap g = l.filterMap f := by
  induction h with
  | nil => rfl
  | cons hab _ ih => rw [List.filterMap_cons, List.filterMap_cons, hab, ih]

theorem forall_mem_iff_of_forall₂ {β : Type} {l' : List β} {P : α → Prop} {Q : β → Prop}
    (h : List.Forall₂ (fun a b => Q b ↔ P a) l l') : (∀ b ∈ l', Q b) ↔ ∀ a ∈ l, P a := by
  induction h with
  | nil => exact ⟨fun _ => List.forall_mem_nil _, fun _ => List.forall_mem_nil _⟩
  | cons hab _ ih => rw [List.forall_mem_cons, List.forall_mem_cons, hab, ih]

end

/-! ## Sections -/

/-- The rules on names, titles and nested fields hold of the decoded records. -/
structure DecodesApart (k : SectionKeyword) (block : Node) : Prop where
  names : k ≠ .controlledVocabulary → (block.records.filterMap (·.decoded.text? "name")).Nodup
  titles : k = .datasetField →
    (block.records.filterMap fun r => titleWithParent? r.decoded).Nodup
  nested : k = .datasetField → ∀ r ∈ block.records, ¬ NestedVocabulary r.decoded

section

variable {s : Section} {k : SectionKeyword} {e : Entry}

/-- A record whose row is blank has blank cells below all headers. -/
theorem isAllBlank_cellText {r : Mapping} (hr : r ∈ s.block.records)
    (h : Table.isBlankRow (Table.headersOf s.block.records) r = true) (key : Text) :
    Text.isAllBlank (Table.cellText r key) = true := by
  by_cases hkey : key ∈ r.keys
  · have hcell := List.all_eq_true.mp h key (Table.mem_headersOf.mpr ⟨r, hr, hkey⟩)
    exact (Bool.and_eq_true_iff.mp hcell).1
  · rw [Table.cellText_of_not_mem hkey]
    rfl

/-- The records that are read are like the kept ones, decoded. A row has a cell below every
header, so keys without a value are read as empty texts, and the rules see no difference. -/
theorem Table.ReadsBack.readsAlike (h : Table.ReadsBack s e) :
    List.Forall₂ (fun r r' => ReadsAlike r' r.decoded) (Table.keptRecords s) e.value.records := by
  refine ((List.forall₂_and_left _ _).mpr ⟨fun r hr => hr, h.forall₂⟩).imp ?_
  rintro r r' ⟨hr, hfields⟩
  refine readsAlike_of_fields hfields fun key hkey => ?_
  exact Table.mem_headersOf.mpr ⟨r, (List.mem_filter.mp hr).1, hkey⟩

theorem isBlankRow_of_not_kept {r : Mapping}
    (h : (!Table.isBlankRow (Table.headersOf s.block.records) r) = false) :
    Table.isBlankRow (Table.headersOf s.block.records) r = true := by
  rwa [Bool.not_eq_false'] at h

/-- A section that is read back has distinct names if its decoded names are distinct. The
records that are skipped have blank names, and decoding leaves a blank name as it is. -/
theorem nodup_names_iff (h : WellFormedSection s k) (hread : Table.ReadsBack s e)
    (hk : k ≠ .controlledVocabulary) :
    (e.value.records.filterMap (·.text? "name")).Nodup
      ↔ (s.block.records.filterMap (·.decoded.text? "name")).Nodup := by
  rw [filterMap_eq_of_forall₂ (hread.readsAlike.imp fun _ _ halike => halike.texts "name")]
  refine nodup_filterMap_filter_iff (fun t => Text.isAllBlank t = true) (h.block.names hk) ?_ ?_
  · intro r hr hblank t ht
    exact isAllBlank_of_decoded_text? (isAllBlank_cellText hr (isBlankRow_of_not_kept hblank)) ht
  · intro r t ht hblank
    exact text?_of_decoded ht hblank

/-- Likewise for titles, where title and parent are both blank. -/
theorem nodup_titles_iff (h : WellFormedSection s k) (hread : Table.ReadsBack s e)
    (hk : k = .datasetField) :
    (e.value.records.filterMap titleWithParent?).Nodup
      ↔ (s.block.records.filterMap fun r => titleWithParent? r.decoded).Nodup := by
  rw [filterMap_eq_of_forall₂ (hread.readsAlike.imp fun _ _ halike => halike.titleWithParent?_eq)]
  refine nodup_filterMap_filter_iff
    (fun t => Text.isAllBlank t.1 = true ∧ ∀ p ∈ t.2, Text.isAllBlank p = true)
    (h.block.titles hk) ?_ ?_
  · rintro r hr hblank ⟨title, p⟩ ht
    have hcells := isAllBlank_cellText hr (isBlankRow_of_not_kept hblank)
    rw [titleWithParent?, Option.map_eq_some_iff] at ht
    obtain ⟨title, htext, hpair⟩ := ht
    obtain ⟨rfl, rfl⟩ := Prod.mk.inj hpair
    exact ⟨isAllBlank_of_decoded_text? hcells htext,
      fun p hp => isAllBlank_of_decoded_parent? hcells hp⟩
  · rintro r ⟨title, p⟩ ht ⟨htitle, hp⟩
    exact titleWithParent?_of_decoded ht htitle hp

/-- No field that is read back is nested with a vocabulary if none is after decoding. -/
theorem forall_not_nestedVocabulary_iff (hread : Table.ReadsBack s e) :
    (∀ r ∈ e.value.records, ¬ NestedVocabulary r)
      ↔ ∀ r ∈ s.block.records, ¬ NestedVocabulary r.decoded := by
  have hkept : (∀ r ∈ e.value.records, ¬ NestedVocabulary r)
      ↔ ∀ r ∈ Table.keptRecords s, ¬ NestedVocabulary r.decoded :=
    forall_mem_iff_of_forall₂
      (hread.readsAlike.imp fun _ _ halike => not_congr halike.nestedVocabulary_iff)
  rw [hkept]
  constructor
  · intro h r hr
    cases hblank : Table.isBlankRow (Table.headersOf s.block.records) r with
    | true => exact not_nestedVocabulary_decoded (isAllBlank_cellText hr hblank)
    | false => exact h r (List.mem_filter.mpr ⟨hr, by rw [hblank]; rfl⟩)
  · intro h r hr
    exact h r (List.mem_filter.mp hr).1

/-- What is read back has the keys that its section requires and permits, and holds scalars. So
only the rule on nested fields is left. -/
theorem forall_wellFormedRecord_iff (h : WellFormedSection s k) (hread : Table.ReadsBack s e) :
    (∀ r ∈ e.value.records, WellFormedRecord k r)
      ↔ (k = .datasetField → ∀ r ∈ e.value.records, ¬ NestedVocabulary r) := by
  constructor
  · intro hrecords hk r hr
    exact (hrecords r hr).nested hk
  · intro hnested r' hr'
    -- every record that is read has all headers as its keys, whatever its source lacked
    obtain ⟨r, hr, hfields⟩ : ∃ r ∈ s.block.records,
        r'.fields = Table.rowFields (Table.headersOf s.block.records) r := by
      have hmem : r'.fields ∈ Table.rowsRead s := hread.rows ▸ List.mem_map_of_mem hr'
      obtain ⟨r, hkept, hrow⟩ := List.mem_map.mp hmem
      exact ⟨r, (List.mem_filter.mp hkept).1, hrow.symm⟩
    have hkeys := Table.keys_of_fields hfields
    refine ⟨fun key hkey => ?_, fun key hkey => ?_, fun f hf => ?_, fun hk => hnested hk r' hr'⟩
    · rw [hkeys, Table.mem_headersOf]
      exact ⟨r, hr, (h.records r hr).required key hkey⟩
    · rw [hkeys] at hkey
      exact h.permissible_of_mem_headersOf hkey
    · have hfield : (f.key, f.value.scalar?) ∈ r'.fields := List.mem_map_of_mem hf
      rw [hfields] at hfield
      obtain ⟨header, -, heq⟩ := List.mem_map.mp hfield
      exact Node.isScalar_iff.mpr ⟨_, (Prod.mk.inj heq).2.symm⟩

/-- A section that is read back is well formed if and only if its records decode apart. Rule by
rule, the condition on what is read is that on the decoded records. -/
theorem wellFormedSection_iff (h : WellFormedSection s k) (hread : Table.ReadsBack s e) :
    WellFormedSection ⟨e.key, e.value⟩ k ↔ DecodesApart k s.block := by
  constructor
  · intro hback
    refine ⟨fun hk => ?_, fun hk => ?_, fun hk => ?_⟩
    · exact (nodup_names_iff h hread hk).mp (hback.block.names hk)
    · exact (nodup_titles_iff h hread hk).mp (hback.block.titles hk)
    · exact (forall_not_nestedVocabulary_iff hread).mp fun r hr => (hback.records r hr).nested hk
  · intro hapart
    refine ⟨hread.key.trans h.keyword, ⟨hread.list, fun hk => ?_, fun hk => ?_⟩, ?_⟩
    · exact (nodup_names_iff h hread hk).mpr (hapart.names hk)
    · exact (nodup_titles_iff h hread hk).mpr (hapart.titles hk)
    · exact (forall_wellFormedRecord_iff h hread).mpr fun hk =>
        (forall_not_nestedVocabulary_iff hread).mpr (hapart.nested hk)

end

/-! ## Documents -/

/-- Decoding keeps the records of all sections apart. -/
def AllDecodeApart (document : Document) : Prop :=
  ∀ e ∈ document.entries, ∀ k : SectionKeyword, e.key = k.text → DecodesApart k e.value

/-- What makes keywords well formed does not depend on their order. -/
theorem WellFormedKeywords.of_perm {keywords keywords' : List Text} (hperm : keywords.Perm keywords')
    (h : WellFormedKeywords keywords) : WellFormedKeywords keywords' := by
  refine ⟨hperm.nodup_iff.mp h.distinct, h.complete.imp (fun hset t => ?_) (fun hset t => ?_)⟩
  · rw [← hperm.mem_iff, hset]
  · rw [← hperm.mem_iff, hset]

/-- A document that is read back is well formed if and only if its source decodes apart. -/
theorem wellFormed_iff_allDecodeApart {document document' : Document} (h : WellFormed document)
    (hreads : List.Forall₂ Table.ReadsBack document.sections document'.entries) :
    WellFormed document' ↔ AllDecodeApart document := by
  -- the keywords only change their order, and the sections are compared one by one
  have hkeys : document.keys.Perm document'.keys := by
    have hread : document'.keys = document.sections.map (·.keyword) := by
      rw [Mapping.keys, ← List.forall₂_eq_eq_eq, List.forall₂_map_left_iff,
        List.forall₂_map_right_iff]
      exact (hreads.imp fun _ _ hread => hread.key).flip
    have hsource : document.keys = document.sourceSections.map (·.keyword) := by
      rw [Mapping.keys, Mapping.sourceSections, List.map_map]
      rfl
    rw [hread, hsource]
    exact (sections_perm document).symm.map _
  have hsections : (∀ e ∈ document'.entries, ∃ k, WellFormedSection ⟨e.key, e.value⟩ k)
      ↔ ∀ s ∈ document.sections, ∀ k : SectionKeyword, s.keyword = k.text → DecodesApart k s.block := by
    refine forall_mem_iff_of_forall₂
      (((List.forall₂_and_left _ _).mpr ⟨h.sections, hreads⟩).imp ?_)
    rintro s e ⟨⟨k, hsection⟩, hread⟩
    constructor
    · rintro ⟨k', hback⟩ k'' hk''
      have hk' : k' = k'' :=
        SectionKeyword.text_injective (hback.keyword.symm.trans (hread.key.trans hk''))
      have hk : k = k'' := SectionKeyword.text_injective (hsection.keyword.symm.trans hk'')
      subst hk' hk
      exact (wellFormedSection_iff hsection hread).mp hback
    · intro hapart
      exact ⟨k, (wellFormedSection_iff hsection hread).mpr (hapart k hsection.keyword)⟩
  constructor
  · intro hback e he k hk
    refine hsections.mp (fun e' he' => ?_) ⟨e.key, e.value⟩ (mem_sections.mpr ⟨e, he, rfl⟩) k hk
    exact hback.sections _ (mem_sections.mpr ⟨e', he', rfl⟩)
  · intro hapart
    refine ⟨h.keywords.of_perm hkeys, fun s hs => ?_⟩
    obtain ⟨e', he', rfl⟩ := mem_sections.mp hs
    refine hsections.mpr (fun s hs k hk => ?_) e' he'
    obtain ⟨e, he, rfl⟩ := mem_sections.mp hs
    exact hapart e he k hk

/-! ## Sources -/

/-- Markers are only warned about. -/
theorem errorFree_markerViolations (lines : List Text) :
    ErrorFree (Table.markerViolations lines) := by
  rw [Table.markerViolations]
  split
  · exact errorFree_nil
  · exact List.forall_mem_singleton.mpr rfl

/-- Linting a table reads it and checks the document. -/
theorem errorFree_lintSource_iff {path source : Text} {settings : RuleSettings}
    (hpath : SourceKind.guess path = (some .tabular, [])) :
    ErrorFree (lintSource path source ⟨[], settings⟩).violations
      ↔ ErrorFree (Table.read source).violations ∧ WellFormed (Table.documentRead source) := by
  have hreading : readAt path source = Table.read source := by
    rw [readAt, hpath]
    rfl
  rw [lintSource, hreading]
  simp only [Table.document_read]
  rw [errorFree_append]
  exact and_congr_right fun _ => errorFree_lintDocument_iff

/-- What is read from a table stands on one line, as lines are split before they are read. -/
theorem onOneLine_documentRead (source : Text) : OnOneLine (Table.documentRead source) := by
  intro e he r hr key _
  obtain ⟨headers, hrecords⟩ := Table.records_documentRead source e he
  rw [Table.cellText]
  cases hvalue : r.scalar? key with
  | none => exact List.not_mem_nil
  | some v =>
    obtain ⟨cell, hcell, rfl⟩ := (hrecords r hr).exists_cell hvalue
    exact Cell.lineFeed_not_mem_render_parse hcell

/-- What was decoded once is apart after decoding again, since decoding a cell that was written
from a decoded value gives this value back. -/
theorem allDecodeApart_documentRead {source : Text} (h : WellFormed (Table.documentRead source)) :
    AllDecodeApart (Table.documentRead source) := by
  intro e he k hk
  obtain ⟨k', hsection⟩ := h.sections ⟨e.key, e.value⟩ (mem_sections.mpr ⟨e, he, rfl⟩)
  obtain rfl : k' = k := SectionKeyword.text_injective (hsection.keyword.symm.trans hk)
  obtain ⟨headers, hrecords⟩ := Table.records_documentRead source e he
  -- decoding is idempotent, so the rules see the records as they did before
  have halike : ∀ r ∈ e.value.records, ReadsAlike r.decoded r := by
    intro r hr
    refine readsAlike_decoded fun key v hv => ?_
    obtain ⟨cell, -, hcell⟩ := (hrecords r hr).exists_cell hv
    exact ⟨cell, hcell⟩
  refine ⟨fun hk => ?_, fun hk => ?_, fun hk r hr => ?_⟩
  · rw [List.filterMap_congr fun r hr => (halike r hr).texts "name"]
    exact hsection.block.names hk
  · rw [List.filterMap_congr fun r hr => (halike r hr).titleWithParent?_eq]
    exact hsection.block.titles hk
  · rw [(halike r hr).nestedVocabulary_iff]
    exact (hsection.records r hr).nested hk

/-- A source without errors is converted, and linting the table gives no error if and only if
decoding keeps its records apart. This is always so if the source was a table. Both runs are
brought down to well-formedness: that of the document that was written, and that of the one
that is read back. -/
theorem errorFree_lintSource_render_iff {path source outfile : Text} {settings : RuleSettings}
    {document : Document}
    (hdocument : (lintSource path source ⟨[], settings⟩).document = some document)
    (herrors : ErrorFree (lintSource path source ⟨[], settings⟩).violations)
    (hlines : (SourceKind.guess path).1 = some .yaml → OnOneLine document)
    (houtfile : SourceKind.guess outfile = (some .tabular, [])) :
    ∃ text, Table.render document (lintSource path source ⟨[], settings⟩).longestRow = .ok text
      ∧ (ErrorFree (lintSource outfile text ⟨[], settings⟩).violations ↔ AllDecodeApart document)
      ∧ ((SourceKind.guess path).1 = some .tabular →
          ErrorFree (lintSource outfile text ⟨[], settings⟩).violations) := by
  have hread := readAt_of_lintSource hdocument
  rw [lintSource_eq hread, errorFree_append] at herrors
  have hwell : WellFormed document := errorFree_lintDocument_iff.mp herrors.2
  obtain ⟨kind, hkind, hsource⟩ := exists_kind_of_document hread
  have htable : kind = .tabular → document = Table.documentRead source := by
    rintro rfl
    exact Option.some.inj (hsource.symm.trans (Table.document_read source))
  -- a table is read line by line, so its cells cannot hold a line feed
  have honeLine : OnOneLine document := by
    cases kind with
    | yaml => exact hlines hkind
    | tabular =>
      rw [htable rfl]
      exact onOneLine_documentRead source
  obtain ⟨text, hrender, hreport, hreads⟩ := read_render_of_wellFormed hwell honeLine
    (lintSource path source ⟨[], settings⟩).longestRow
  have hiff : ErrorFree (lintSource outfile text ⟨[], settings⟩).violations
      ↔ AllDecodeApart document := by
    rw [errorFree_lintSource_iff houtfile, hreport, wellFormed_iff_allDecodeApart hwell hreads]
    exact and_iff_right (errorFree_markerViolations _)
  refine ⟨text, hrender, hiff, fun htabular => hiff.mpr ?_⟩
  rw [htable (Option.some.inj (hkind.symm.trans htabular))] at hwell ⊢
  exact allDecodeApart_documentRead hwell

/-- A source with a text that is decoded as a truth value. -/
def spelledSource : Text :=
  "datasetField: []\nmetadataBlock:\n- name: \"true\"\n  displayName: A"

theorem errorFree_lintSource_render_spelledSource :
    ∃ document text, (lintSource "a.yml" spelledSource ⟨[], {}⟩).document = some document
      ∧ Table.render document (lintSource "a.yml" spelledSource ⟨[], {}⟩).longestRow = .ok text
      ∧ (ErrorFree (lintSource "a.tsv" text ⟨[], {}⟩).violations ↔ AllDecodeApart document) := by
  have hread : ∃ document ∈ (readAt "a.yml" spelledSource).document,
      ErrorFree (readAt "a.yml" spelledSource).violations
        ∧ ErrorFree (lintDocument document ⟨[], {}⟩) ∧ OnOneLine document := by
    simp only [lintDocument, sections_eq, ErrorFree]
    decide +kernel
  obtain ⟨document, hdocument, hreader, hrules, hlines⟩ := hread
  have hlint := lintSource_eq hdocument ⟨[], {}⟩
  obtain ⟨text, hrender, hiff, -⟩ := errorFree_lintSource_render_iff (by rw [hlint])
    (by rw [hlint]; exact errorFree_append.mpr ⟨hreader, hrules⟩) (fun _ => hlines)
    (show SourceKind.guess "a.tsv" = (some .tabular, []) by decide +kernel)
  exact ⟨document, text, by rw [hlint], hrender, hiff⟩

theorem eq_ok_of_mem_toOption {ε α : Type} {result : Except ε α} {a : α}
    (h : a ∈ result.toOption) : result = .ok a := by
  cases result with
  | error e => cases h
  | ok b =>
    cases h
    rfl

/-- The source has no error, but the table that it is converted to has one. -/
def ConvertsToError (source : Text) : Prop :=
  ∃ document text, (lintSource "a.yml" source ⟨[], {}⟩).document = some document
    ∧ ErrorFree (lintSource "a.yml" source ⟨[], {}⟩).violations
    ∧ Table.render document (lintSource "a.yml" source ⟨[], {}⟩).longestRow = .ok text
    ∧ ¬ ErrorFree (lintSource "a.tsv" text ⟨[], {}⟩).violations

/-- It is enough to look at the rules on the two documents, which can be computed. -/
theorem convertsToError_of_rules {source : Text}
    (h : ∃ document ∈ (readAt "a.yml" source).document,
      ErrorFree (readAt "a.yml" source).violations ∧ ErrorFree (lintDocument document ⟨[], {}⟩)
        ∧ ∃ text ∈ (Table.render document document.longestRow).toOption,
          ¬ ErrorFree (lintDocument (Table.documentRead text) ⟨[], {}⟩)) :
    ConvertsToError source := by
  obtain ⟨document, hdocument, hreader, hrules, text, htext, hreport⟩ := h
  have hlint := lintSource_eq hdocument ⟨[], {}⟩
  have hrender := eq_ok_of_mem_toOption htext
  refine ⟨document, text, by rw [hlint], ?_, by rw [hlint]; exact hrender, ?_⟩
  · rw [hlint]
    exact errorFree_append.mpr ⟨hreader, hrules⟩
  · rw [errorFree_lintSource_iff (by decide +kernel)]
    exact fun hfree => hreport (errorFree_lintDocument_iff.mpr hfree.2)

/-- A source with two spellings of a truth value as names. -/
def twoSpellings : Text :=
  "datasetField: []\nmetadataBlock:\n- name: \"true\"\n  displayName: A\n- name: \"TRUE\"\n  displayName: B"

/-- A source with a text whose second line looks like a marker. -/
def markerInText : Text :=
  "datasetField: []\nmetadataBlock:\n- name: A\n  displayName: \"x\\n#\""

/-- Neither source has an error, but the tables they are converted to have. -/
theorem lintSource_render_reports_error :
    ConvertsToError twoSpellings ∧ ConvertsToError markerInText := by
  constructor
  · refine convertsToError_of_rules ?_
    simp only [lintDocument, Table.render, Table.ofDocument, sections_eq, ErrorFree]
    decide +kernel
  · refine convertsToError_of_rules ?_
    simp only [lintDocument, Table.render, Table.ofDocument, sections_eq, ErrorFree]
    decide +kernel

end MetadataBlock
