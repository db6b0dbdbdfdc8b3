import MetadataBlock.Proofs.Relint
import MetadataBlock.Proofs.TabularRoundTrip

/-!
# Converting clean tables

A table without violations that is converted again keeps its content: its sections
are put in canonical order. A column whose header was there before is left out, as
only the first one counts, and so are records that show nothing.

- `Mapping.firstEntries`: the first entry of every key;
- `Mapping.tidied`: the document that is left after conversion;
- `read_render_of_clean`: a clean table is read back as this document.
-/

namespace MetadataBlock

namespace Mapping

/-! ## The first entry of every key -/

/-- The record with the first entry of every key. -/
def firstEntries (m : Mapping) : Mapping :=
  ⟨m.keys.eraseDups.filterMap fun key => m.entries.find? (·.key == key), m.position⟩

theorem find?_of_mem_keys {m : Mapping} {key : Text} (h : key ∈ m.keys) :
    ∃ e ∈ m.entries, m.entries.find? (·.key == key) = some e ∧ e.key = key := by
  obtain ⟨e, he, hkey⟩ := List.mem_map.mp h
  obtain ⟨found, hfind⟩ : ∃ found, m.entries.find? (·.key == key) = some found :=
    Option.isSome_iff_exists.mp (List.find?_isSome.mpr ⟨e, he, beq_iff_eq.mpr hkey⟩)
  exact ⟨found, List.mem_of_find?_eq_some hfind, hfind, key_of_find? hfind⟩

/-- The keys that are left are those of the record, each once. For every one of them there is
an entry, so none is lost on the way. -/
theorem keys_firstEntries (m : Mapping) : m.firstEntries.keys = m.keys.eraseDups := by
  have hmap : ∀ keys : List Text, (∀ key ∈ keys, key ∈ m.keys) →
      (keys.filterMap fun key => m.entries.find? (·.key == key)).map (·.key) = keys := by
    intro keys
    induction keys with
    | nil => exact fun _ => rfl
    | cons key keys ih =>
      intro hkeys
      rw [List.forall_mem_cons] at hkeys
      obtain ⟨e, -, hfind, hkey⟩ := find?_of_mem_keys hkeys.1
      simp only [List.filterMap_cons, hfind, List.map_cons, hkey, ih hkeys.2]
  exact hmap _ fun key hkey => List.mem_eraseDups.mp hkey

/-- Every entry that is left is the first one under its key. -/
theorem find?_of_mem_firstEntries {m : Mapping} {e : Entry} (h : e ∈ m.firstEntries.entries) :
    m.entries.find? (·.key == e.key) = some e := by
  obtain ⟨key, -, hfind⟩ := List.mem_filterMap.mp h
  rwa [key_of_find? hfind]

end Mapping

namespace Table

/-- A record shows the same cells after its repeated keys were left out, since a cell is the
value of the first entry under its key before and after. -/
theorem cellText_firstEntries (r : Mapping) {key : Text} (h : key ∈ r.keys) :
    cellText r.firstEntries key = cellText r key := by
  have hnodup : r.firstEntries.keys.Nodup := by
    rw [Mapping.keys_firstEntries]
    exact nodup_eraseDups _
  have hmem : key ∈ r.firstEntries.keys := by
    rw [Mapping.keys_firstEntries]
    exact List.mem_eraseDups.mpr h
  obtain ⟨e, he, rfl⟩ := List.mem_map.mp hmem
  have hentry : r.entry? e.key = some e.value := by
    rw [Mapping.entry?, Mapping.find?_of_mem_firstEntries he]
    rfl
  rw [cellText, cellText, Mapping.scalar?_of_nodup hnodup he, Mapping.scalar?_eq_bind, hentry]
  rfl

/-- A record of a table is read back without its repeated keys: the row that is written for it
is the row of its first entries, and these have distinct keys. -/
theorem sameFields_firstEntries {headers : List Text} {r : Mapping} (h : TableRecord headers r) :
    List.Forall₂ SameField (rowFields r.keys.eraseDups r) r.firstEntries.fields := by
  have hkeys := Mapping.keys_firstEntries r
  have hrow : rowFields r.keys.eraseDups r = rowFields r.firstEntries.keys r.firstEntries := by
    rw [hkeys]
    refine List.map_congr_left fun key hkey => ?_
    rw [cellText_firstEntries r (List.mem_eraseDups.mp hkey)]
  rw [hrow]
  refine sameFields_rowFields (hkeys ▸ nodup_eraseDups _) fun f hf => ?_
  have hmem := List.mem_of_find?_eq_some (Mapping.find?_of_mem_firstEntries hf)
  obtain ⟨cell, -, hvalue⟩ := h.values f hmem
  exact ⟨_, hvalue, Cell.same_decoded_parse cell⟩

end Table

/-! ## Documents -/

/-- The section without blank records and repeated keys. -/
def Section.tidied (s : Section) : Entry :=
  ⟨s.keyword, .list ((Table.keptRecords s).map fun r => r.firstEntries.toNode) s.block.position, none⟩

/-- The document with its sections in canonical order, without blank records and
repeated keys. -/
def Mapping.tidied (document : Document) : Document :=
  ⟨document.sections.map Section.tidied, document.position⟩

/-- A section of a table is read back tidied. -/
theorem Table.ReadsBack.sameEntry_tidied {s : Section} {e : Entry} (h : Table.ReadsBack s e)
    {headers : List Text} (hrecords : ∀ r ∈ s.block.records, Table.TableRecord headers r) :
    SameEntry e s.tidied := by
  have hlist : s.tidied.value
      = .list (((Table.keptRecords s).map Mapping.firstEntries).map Mapping.toNode)
          s.block.position := by
    rw [List.map_map]
    rfl
  refine h.sameEntry rfl ⟨_, _, hlist⟩ ?_
  rw [hlist, records_list, Table.rowsRead, List.forall₂_map_left_iff, List.forall₂_map_right_iff,
    List.forall₂_same]
  intro r hr
  have hmem : r ∈ s.block.records := (List.mem_filter.mp hr).1
  rw [Table.headersOf_of_same_keys (List.ne_nil_of_mem hmem) fun r hr => (hrecords r hr).keys,
    ← (hrecords r hmem).keys]
  exact Table.sameFields_firstEntries (hrecords r hmem)

/-- A table without violations is converted, and the new table is read as the same document,
tidied. A document that a table is read as holds texts, numbers and truth values as cells give
them, and these are read back as they are. -/
theorem read_render_of_clean {path source : Text} {settings : RuleSettings}
    (hpath : SourceKind.guess path = (some .tabular, []))
    (hclean : (lintSource path source ⟨[], settings⟩).violations = []) :
    ∃ document text document', (lintSource path source ⟨[], settings⟩).document = some document
      ∧ Table.render document document.longestRow = .ok text
      ∧ (Table.read text).document = some document'
      ∧ document'.toNode.same document.tidied.toNode = true := by
  have hfree : ErrorFree (lintSource path source ⟨[], settings⟩).violations := by
    rw [hclean]
    exact errorFree_nil
  -- warnings play no part: a table without errors would do
  have hwell := ((errorFree_lintSource_iff hpath).mp hfree).2
  obtain ⟨text, hrender, -, hreads⟩ := read_render_of_wellFormed hwell
    (onOneLine_documentRead source) (Table.documentRead source).longestRow
  have hread : (readAt path source).document = some (Table.documentRead source) := by
    rw [readAt, hpath]
    exact Table.document_read source
  refine ⟨Table.documentRead source, text, Table.documentRead text, ?_, hrender,
    Table.document_read text, same_of_entries ?_⟩
  · rw [lintSource_eq hread]
  · have htable : ∀ s ∈ (Table.documentRead source).sections,
        ∃ headers, ∀ r ∈ s.block.records, Table.TableRecord headers r := by
      intro s hs
      obtain ⟨e, he, rfl⟩ := mem_sections.mp hs
      exact Table.records_documentRead source e he
    rw [Mapping.tidied, List.forall₂_map_right_iff]
    have hboth := (List.forall₂_and_left _ _).mpr ⟨htable, hreads⟩
    refine (hboth.imp ?_).flip
    rintro s e ⟨⟨headers, hrecords⟩, hback⟩
    exact hback.sameEntry_tidied hrecords

/-- A clean table with a header that stands twice. -/
def repeatedHeader : Text :=
  "#metadataBlock\tname\tdisplayName\tname\n\ta\tA\tb\n#datasetField\n"

/-- A clean table with a row of empty cells between quotes. -/
def emptyCells : Text :=
  "#metadataBlock\tname\tdisplayName\n\t\"\"\t\"\"\n#datasetField\n"

theorem read_render_repeatedHeader :
    ∃ document text document',
      (lintSource "a.tsv" repeatedHeader ⟨[], {}⟩).document = some document
        ∧ Table.render document document.longestRow = .ok text
        ∧ (Table.read text).document = some document'
        ∧ document'.toNode.same document.tidied.toNode = true := by
  refine read_render_of_clean (by decide +kernel) ?_
  have hread : (readAt "a.tsv" repeatedHeader).document = some (Table.documentRead repeatedHeader) :=
    rfl
  rw [lintSource_eq hread, lintDocument, sections_eq]
  decide +kernel

/-- The document with its sections in canonical order. -/
def Mapping.ordered (document : Document) : Document :=
  ⟨document.sections.map fun s => ⟨s.keyword, s.block, none⟩, document.position⟩

/-- The table is clean, but what it is converted to is not the same in canonical order. -/
def LosesContent (source : Text) : Prop :=
  ∃ document text document', (lintSource "a.tsv" source ⟨[], {}⟩).violations = []
    ∧ (lintSource "a.tsv" source ⟨[], {}⟩).document = some document
    ∧ Table.render document document.longestRow = .ok text
    ∧ (Table.read text).document = some document'
    ∧ document'.toNode.same document.ordered.toNode = false

/-- It is enough to look at the reader's violations, at those of the rules, and at the two
documents. -/
theorem losesContent_of_rules {source : Text}
    (h : ∃ document ∈ (readAt "a.tsv" source).document,
      (readAt "a.tsv" source).violations = [] ∧ lintDocument document ⟨[], {}⟩ = []
        ∧ ∃ text ∈ (Table.render document document.longestRow).toOption,
          (Table.documentRead text).toNode.same document.ordered.toNode = false) :
    LosesContent source := by
  obtain ⟨document, hdocument, hreader, hrules, text, htext, hsame⟩ := h
  have hlint := lintSource_eq hdocument ⟨[], {}⟩
  refine ⟨document, text, Table.documentRead text, ?_, by rw [hlint],
    eq_ok_of_mem_toOption htext, Table.document_read text, hsame⟩
  rw [hlint, hreader, hrules]
  rfl

/-- Both tables lose something: the column of the second header, and the empty record. -/
theorem read_render_not_same : LosesContent repeatedHeader ∧ LosesContent emptyCells := by
  constructor
  · refine losesContent_of_rules ?_
    simp only [lintDocument, Table.render, Table.ofDocument, Mapping.ordered, sections_eq]
    decide +kernel
  · refine losesContent_of_rules ?_
    simp only [lintDocument, Table.render, Table.ofDocument, Mapping.ordered, sections_eq]
    decide +kernel

end MetadataBlock
