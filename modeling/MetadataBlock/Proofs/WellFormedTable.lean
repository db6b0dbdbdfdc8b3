import MetadataBlock.Proofs.CellDecoding
import MetadataBlock.Proofs.ErrorRules
import MetadataBlock.Proofs.ReadBack

/-!
# Tables of well-formed documents

A document without errors can be written and read back, provided that each of its
cells fits on one line: the reader splits a file into lines before it looks at
quotes. Every record that shows anything keeps its place and the texts of its
cells.

- `OnOneLine`: the documents whose cells hold no line feed;
- `WellFormedSection.readable`, `read_render_of_wellFormed`: such a document is
  read back section by section;
- `KeepsRecords`, `read_render_keepsRecords`: what is kept of the records.
-/

namespace MetadataBlock

open Text (lineFeed)

/-- No cell of the document holds a line feed. -/
def OnOneLine (document : Document) : Prop :=
  ∀ e ∈ document.entries, ∀ r ∈ e.value.records, ∀ key ∈ r.keys, lineFeed ∉ Table.cellText r key

instance (document : Document) : Decidable (OnOneLine document) :=
  inferInstanceAs (Decidable (∀ e ∈ document.entries, ∀ r ∈ e.value.records, ∀ key ∈ r.keys,
    lineFeed ∉ Table.cellText r key))

/-- A record has an empty cell below a header that is not among its keys. -/
theorem Table.cellText_of_not_mem {r : Mapping} {key : Text} (h : key ∉ r.keys) :
    Table.cellText r key = [] := by
  have hnone : r.entry? key = none :=
    Option.isNone_iff_eq_none.mp (Mapping.isNone_entry?_iff.mpr h)
  rw [Table.cellText, Mapping.scalar?_eq_bind, hnone]
  rfl

namespace WellFormedSection

variable {s : Section} {k : SectionKeyword} (h : WellFormedSection s k)

include h

/-- The headers of a well-formed section are keys that it permits. -/
theorem permissible_of_mem_headersOf {header : Text}
    (hheader : header ∈ Table.headersOf s.block.records) : header ∈ k.permissibleKeys := by
  obtain ⟨r, hr, hkey⟩ := Table.mem_headersOf.mp hheader
  exact (h.records r hr).permissible header hkey

/-- Permitted keys are not trimmed, stand on one line and are not empty. So what is left to ask
of a well-formed section is that its cells stand on one line. -/
theorem readable
    (hlines : ∀ r ∈ s.block.records, ∀ key ∈ r.keys, lineFeed ∉ Table.cellText r key) :
    Table.Readable s := by
  have hkeys : ∀ key ∈ k.permissibleKeys, Text.trim key = key ∧ lineFeed ∉ key ∧ key ≠ [] := by
    cases k <;> decide
  refine ⟨?_, ?_, ?_, ?_, ?_, ?_⟩
  · rw [h.keyword, Table.needsQuotes_marker]
  · intro r hr
    exact Table.renderable_of_scalars (h.records r hr).scalars
  · intro header hheader
    exact (hkeys header (h.permissible_of_mem_headersOf hheader)).1
  · intro header hheader
    exact (hkeys header (h.permissible_of_mem_headersOf hheader)).2.1
  · intro hlast
    have hempty := h.permissible_of_mem_headersOf (List.mem_of_getLast? hlast)
    exact (hkeys [] hempty).2.2 rfl
  · intro r hr header _
    -- below a header that the record does not have stands an empty cell
    by_cases hkey : header ∈ r.keys
    · exact hlines r hr header hkey
    · rw [Table.cellText_of_not_mem hkey]
      exact List.not_mem_nil

end WellFormedSection

/-- A well-formed document on one line each is read back section by section, in canonical
order. -/
theorem read_render_of_wellFormed {document : Document} (h : WellFormed document)
    (hlines : OnOneLine document) (wanted : Nat) :
    ∃ text, Table.render document wanted = .ok text
      ∧ (Table.read text).violations = Table.markerViolations (splitLines text)
      ∧ List.Forall₂ Table.ReadsBack document.sections (Table.documentRead text).entries := by
  have hreadable : ∀ s ∈ document.sections, Table.Readable s := by
    intro s hs
    obtain ⟨k, hsection⟩ := h.sections s hs
    obtain ⟨e, he, rfl⟩ := mem_sections.mp hs
    exact hsection.readable (hlines e he)
  obtain ⟨text, hrender, hviolations, -, hreads⟩ := Table.read_render hreadable wanted
  exact ⟨text, hrender, hviolations, hreads⟩

/-! ## The records that are kept -/

/-- The entry has the keyword of the section and its records, those with blank rows
left out, in the same order and with the texts of their cells. -/
structure KeepsRecords (s : Section) (e : Entry) : Prop where
  keyword : e.key = s.keyword
  list : e.value.HoldsRecords
  records : List.Forall₂ (fun r r' => ∀ key ∈ Table.headersOf s.block.records,
      Cell.KeepsText (Table.cellText r key) (Table.cellText r' key))
    (Table.keptRecords s) e.value.records

/-- What is read back keeps the texts of the cells, since decoding and writing a text gives it
back up to its spelling. -/
theorem Table.ReadsBack.keepsRecords {s : Section} {e : Entry} (h : Table.ReadsBack s e) :
    KeepsRecords s e := by
  refine ⟨h.key, h.list, h.forall₂.imp fun r r' hfields key hkey => ?_⟩
  rw [Table.cellText_of_fields hfields hkey]
  exact Cell.keepsText_render_parse _

/-- Writing a document without errors and reading it back keeps every record that
shows anything, in order, and the text of every cell that stands on one line. -/
theorem read_render_keepsRecords {document : Document} {settings : RuleSettings}
    (herrors : ErrorFree (validate document ⟨[], settings⟩).violations)
    (hlines : OnOneLine document) :
    ∃ text document', Table.render document document.longestRow = .ok text
      ∧ (Table.read text).document = some document'
      ∧ List.Forall₂ KeepsRecords document.sections document'.entries := by
  have hwell : WellFormed document := errorFree_lintDocument_iff.mp herrors
  obtain ⟨text, hrender, -, hreads⟩ :=
    read_render_of_wellFormed hwell hlines document.longestRow
  refine ⟨text, Table.documentRead text, hrender, Table.document_read text, ?_⟩
  exact hreads.imp fun _ _ hread => hread.keepsRecords

/-- A document with a record that shows nothing. -/
def sparseDocument : Document where
  entries :=
    [⟨"metadataBlock", .list
        [.mapping [⟨"name", .scalar .null none, none⟩, ⟨"displayName", .scalar .null none, none⟩] none,
         .mapping [⟨"name", .scalar (.text "True") none, none⟩,
           ⟨"displayName", .scalar (.text "edge ") none, none⟩] none] none, none⟩,
     ⟨"datasetField", .list [] none, none⟩]
  position := none

/-- A record without any value is no error. -/
theorem errorFree_sparseDocument : ErrorFree (validate sparseDocument ⟨[], {}⟩).violations := by
  have hsections : sparseDocument.sections = sparseDocument.sourceSections :=
    sections_of_pairwise (by decide)
  show ErrorFree (_ ++ sparseDocument.sections.flatMap _)
  rw [hsections]
  unfold ErrorFree
  decide +kernel

theorem read_render_sparseDocument :
    ∃ text document', Table.render sparseDocument sparseDocument.longestRow = .ok text
      ∧ (Table.read text).document = some document'
      ∧ List.Forall₂ KeepsRecords sparseDocument.sections document'.entries :=
  read_render_keepsRecords errorFree_sparseDocument (by decide +kernel)

/-- The texts of the cells of a section, record by record. -/
def cellTexts (e : Entry) : List (List Text) :=
  e.value.records.map fun r => (Table.headersOf e.value.records).map (Table.cellText r)

/-- A document without errors whose records do not all keep their texts. -/
def awkwardDocument : Document where
  entries :=
    [⟨"metadataBlock", .list
        [.mapping [⟨"name", .scalar .null none, none⟩, ⟨"displayName", .scalar .null none, none⟩] none,
         .mapping [⟨"name", .scalar (.text "-0") none, none⟩,
           ⟨"displayName", .scalar (.text "A") none, none⟩] none,
         .mapping [⟨"name", .scalar (.text "x\ny") none, none⟩,
           ⟨"displayName", .scalar (.text "B") none, none⟩] none] none, none⟩,
     ⟨"datasetField", .list [] none, none⟩]
  position := none

/-- A record without any text is lost, minus zero loses its sign, and a text on two
lines is torn apart. -/
theorem cellTexts_read_render_awkwardDocument :
    ErrorFree (validate awkwardDocument ⟨[], {}⟩).violations
      ∧ (∀ e ∈ awkwardDocument.entries, ∀ r ∈ e.value.records, r.keys.Nodup)
      ∧ awkwardDocument.sections.map (fun s => cellTexts ⟨s.keyword, s.block, none⟩)
          = ([[["", ""], ["-0", "A"], ["x\ny", "B"]], []] : List (List (List Text)))
      ∧ ∃ text document', Table.render awkwardDocument awkwardDocument.longestRow = .ok text
          ∧ (Table.read text).document = some document'
          ∧ document'.entries.map cellTexts
            = ([[["0", "A"], ["x", ""], ["B", ""]], []] : List (List (List Text))) := by
  have hsections : awkwardDocument.sections = awkwardDocument.sourceSections :=
    sections_of_pairwise (by decide)
  have hrender : Table.render awkwardDocument awkwardDocument.longestRow
      = .ok "#metadataBlock\tname\tdisplayName\n\t\t\n\t-0\tA\n\t\"x\ny\"\tB\n#datasetField\t\t\n" := by
    rw [Table.render, Table.ofDocument, hsections]
    rfl
  refine ⟨?_, by decide, ?_, _, _, hrender, Table.document_read _, by decide +kernel⟩
  · show ErrorFree (_ ++ awkwardDocument.sections.flatMap _)
    rw [hsections]
    unfold ErrorFree
    decide +kernel
  · rw [hsections]
    decide +kernel

end MetadataBlock
