import Mathlib.Data.List.Forall2
import MetadataBlock.Proofs.CellDecoding
import MetadataBlock.Proofs.ReadBack
import MetadataBlock.Proofs.SectionOrder

/-!
# The round trip of tabular documents

A document that has the shape of a table is the same after it was written and read
back. The shape asks for known keywords in canonical order, records of one section
with the same keys, values that a cell can hold, and no record that shows nothing.

- `Scalar.IsTabular`, `TabularSection`, `Tabular`: the shape;
- `sameFields_rowFields`: a record whose values survive decoding is read back;
- `read_render_of_tabular`: the round trip.
-/

namespace MetadataBlock

open Text (lineFeed)

/-! ## The shape of a table -/

/-- The values that a cell keeps: null, truth values, safe integers, and texts on one
line that are not read as any of these. -/
def Scalar.IsTabular : Scalar → Prop
  | .null => True
  | .bool _ => True
  | .number n => n.isSafe = true
  | .text t => lineFeed ∉ t ∧ Cell.parse t = .text t

instance (v : Scalar) : Decidable v.IsTabular :=
  match v with
  | .null => inferInstanceAs (Decidable True)
  | .bool _ => inferInstanceAs (Decidable True)
  | .number n => inferInstanceAs (Decidable (n.isSafe = true))
  | .text t => inferInstanceAs (Decidable (lineFeed ∉ t ∧ Cell.parse t = .text t))

/-- The keys that can stand in a header row. -/
structure TabularKeys (keys : List Text) : Prop where
  distinct : keys.Nodup
  trimmed : ∀ key ∈ keys, Text.trim key = key
  lines : ∀ key ∈ keys, lineFeed ∉ key
  last : keys.getLast? ≠ some []

/-- A section that has the shape of a table. -/
structure TabularSection (e : Entry) : Prop where
  keyword : ∃ k : SectionKeyword, e.key = k.text
  list : e.value.HoldsRecords
  keys : ∃ keys, TabularKeys keys ∧ ∀ r ∈ e.value.records, r.keys = keys
  values : ∀ r ∈ e.value.records, ∀ f ∈ r.entries, ∃ v, f.value.scalar? = some v ∧ v.IsTabular
  shown : ∀ r ∈ e.value.records, ∃ f ∈ r.entries, ∃ v, f.value.scalar? = some v
    ∧ Text.isAllBlank (Cell.render v) = false

/-- A document that has the shape of a table. -/
structure Tabular (document : Document) : Prop where
  sections : ∀ e ∈ document.entries, TabularSection e
  ordered : document.entries.Pairwise fun a b => keywordOrder a.key ≤ keywordOrder b.key

/-! ## Values -/

/-- A tabular value is what some cell on one line is decoded to. -/
theorem Scalar.IsTabular.exists_cell {v : Scalar} (h : v.IsTabular) :
    ∃ cell, lineFeed ∉ cell ∧ v = Cell.parse cell := by
  cases v with
  | null => exact ⟨[], List.not_mem_nil, rfl⟩
  | bool b => exact ⟨Cell.render (.bool b), by cases b <;> decide, by cases b <;> decide⟩
  | number n =>
    cases n with
    | whole n =>
      refine ⟨Text.ofInt n, fun hmem => ?_, (Cell.parse_ofInt (of_decide_eq_true h)).symm⟩
      -- a line feed is neither a digit nor a sign
      rcases Text.ofInt_forall n lineFeed hmem with hdigit | hsign
      · exact absurd hdigit (by decide)
      · exact absurd hsign (by decide)
    | negZero => exact ⟨"-0", by decide, by decide⟩
    | nan => cases h
    | infinity negative => cases h
    | dyadic odd shift => cases h
  | text t => exact ⟨t, h.1, h.2.symm⟩

/-- A tabular value survives decoding, as it was decoded from a cell in the first place. -/
theorem Scalar.IsTabular.same_decoded {v : Scalar} (h : v.IsTabular) :
    (Cell.decoded v).same v = true := by
  obtain ⟨cell, -, rfl⟩ := h.exists_cell
  exact Cell.same_decoded_parse cell

theorem Scalar.IsTabular.lineFeed_not_mem {v : Scalar} (h : v.IsTabular) :
    lineFeed ∉ Cell.render v := by
  obtain ⟨cell, hcell, rfl⟩ := h.exists_cell
  exact Cell.lineFeed_not_mem_render_parse hcell

/-! ## Records -/

namespace Table

/-- The cell of a field under a key that stands once. -/
theorem cellText_of_nodup {r : Mapping} (hkeys : r.keys.Nodup) {f : Entry} (hf : f ∈ r.entries)
    {v : Scalar} (hv : f.value.scalar? = some v) : cellText r f.key = Cell.render v := by
  rw [cellText, Mapping.scalar?_of_nodup hkeys hf, hv]
  rfl

/-- A record whose values survive decoding is read back from its row. Its keys are distinct, so
every field finds its own value again. -/
theorem sameFields_rowFields {r : Mapping} (hkeys : r.keys.Nodup)
    (h : ∀ f ∈ r.entries, ∃ v, f.value.scalar? = some v ∧ (Cell.decoded v).same v = true) :
    List.Forall₂ SameField (rowFields r.keys r) r.fields := by
  rw [rowFields, Mapping.keys, List.map_map, Mapping.fields, List.forall₂_map_left_iff,
    List.forall₂_map_right_iff, List.forall₂_same]
  intro f hf
  obtain ⟨v, hv, hsame⟩ := h f hf
  rw [Function.comp, cellText_of_nodup hkeys hf hv, hv]
  exact .mk hsame

/-- A section is read back as an entry if the fields of all its records are. Positions do not
matter for being the same. -/
theorem ReadsBack.sameEntry {s : Section} {e e' : Entry} (h : ReadsBack s e)
    (hkey : e'.key = s.keyword) (hlist : e'.value.HoldsRecords)
    (hrows : List.Forall₂ (fun fields r => List.Forall₂ SameField fields r.fields) (rowsRead s)
      e'.value.records) : SameEntry e e' := by
  obtain ⟨position, hvalue⟩ := h.list.eq_list
  obtain ⟨position', hvalue'⟩ := hlist.eq_list
  refine ⟨h.key.trans hkey.symm, ?_⟩
  rw [hvalue, hvalue']
  rw [← h.rows, List.forall₂_map_left_iff] at hrows
  exact same_of_records hrows

end Table

/-! ## Sections -/

section

variable {e : Entry} (h : TabularSection e)

include h

/-- The records of a tabular section have its headers as their keys. -/
theorem TabularSection.keys_eq : ∀ r ∈ e.value.records, r.keys = Table.headersOf e.value.records := by
  intro r hr
  obtain ⟨keys, hkeys, hsame⟩ := h.keys
  rw [Table.headersOf_of_same_keys (List.ne_nil_of_mem hr) hsame, eraseDups_of_nodup hkeys.distinct,
    hsame r hr]

/-- The headers of a tabular section can stand in a header row; without records there are
none. -/
theorem TabularSection.tabularKeys : TabularKeys (Table.headersOf e.value.records) := by
  obtain ⟨keys, hkeys, hsame⟩ := h.keys
  by_cases hrecords : e.value.records = []
  · rw [hrecords]
    exact ⟨.nil, List.forall_mem_nil _, List.forall_mem_nil _, by simp [Table.headersOf]⟩
  · rw [Table.headersOf_of_same_keys hrecords hsame, eraseDups_of_nodup hkeys.distinct]
    exact hkeys

/-- A tabular section is read back from its lines: each condition on reading is one on the
shape. -/
theorem TabularSection.readable : Table.Readable ⟨e.key, e.value⟩ := by
  have hkeys := h.tabularKeys
  refine ⟨?_, ?_, hkeys.trimmed, hkeys.lines, hkeys.last, ?_⟩
  · obtain ⟨k, hk⟩ := h.keyword
    show Row.needsQuotes (Text.unit '#' :: e.key) = false
    rw [hk, Table.needsQuotes_marker]
  · intro r hr
    refine Table.renderable_of_scalars fun f hf => ?_
    obtain ⟨v, hv, -⟩ := h.values r hr f hf
    exact Node.isScalar_iff.mpr ⟨v, hv⟩
  · intro r hr header hheader
    rw [← h.keys_eq r hr] at hheader
    obtain ⟨f, hf, rfl⟩ := List.mem_map.mp hheader
    obtain ⟨v, hv, htabular⟩ := h.values r hr f hf
    rw [Table.cellText_of_nodup (h.keys_eq r hr ▸ hkeys.distinct) hf hv]
    exact htabular.lineFeed_not_mem

/-- No row of a tabular section is blank, as every record shows something. -/
theorem TabularSection.isBlankRow_eq {r : Mapping} (hr : r ∈ e.value.records) :
    Table.isBlankRow (Table.headersOf e.value.records) r = false := by
  obtain ⟨f, hf, v, hv, hshown⟩ := h.shown r hr
  have hkeys : r.keys.Nodup := h.keys_eq r hr ▸ h.tabularKeys.distinct
  rw [Table.isBlankRow, List.all_eq_false]
  refine ⟨f.key, h.keys_eq r hr ▸ List.mem_map_of_mem hf, ?_⟩
  rw [Table.cellText_of_nodup hkeys hf hv, Table.isBlankCell, hshown]
  exact Bool.false_ne_true

/-- A tabular section is what it is read back as. No record is skipped, and none gets a field
that it did not have. -/
theorem TabularSection.sameEntry {e' : Entry} (hread : Table.ReadsBack ⟨e.key, e.value⟩ e') :
    SameEntry e' e := by
  refine hread.sameEntry rfl h.list ?_
  have hkept : Table.keptRecords ⟨e.key, e.value⟩ = e.value.records := by
    refine List.filter_eq_self.mpr fun r hr => ?_
    rw [h.isBlankRow_eq hr]
    rfl
  rw [Table.rowsRead, hkept, List.forall₂_map_left_iff, List.forall₂_same]
  intro r hr
  have hkeys := h.keys_eq r hr
  rw [← hkeys]
  refine Table.sameFields_rowFields (hkeys ▸ h.tabularKeys.distinct) fun f hf => ?_
  obtain ⟨v, hv, htabular⟩ := h.values r hr f hf
  exact ⟨v, hv, htabular.same_decoded⟩

end

/-! ## The round trip -/

/-- A tabular document is the same after it was written, to any width, and read back. All that
may be reported is an unexpected number of sections. In canonical order the sections stand as
they are read, so they can be compared one by one. -/
theorem read_render_of_tabular {document : Document} (h : Tabular document) (wanted : Nat) :
    ∃ text document', Table.render document wanted = .ok text
      ∧ (Table.read text).document = some document'
      ∧ document'.toNode.same document.toNode = true
      ∧ (Table.read text).violations
          = if document.entries.length = 2 ∨ document.entries.length = 3 then []
            else [ambiguousMarkers (markerPlaces (splitLines text))] := by
  -- in canonical order the sections are written where they stood
  have hsections : document.sections = document.sourceSections := sections_of_pairwise h.ordered
  have hreadable : ∀ s ∈ document.sections, Table.Readable s := by
    intro s hs
    obtain ⟨e, he, rfl⟩ := mem_sections.mp hs
    exact (h.sections e he).readable
  obtain ⟨text, hrender, hviolations, hmarkers, hreads⟩ := Table.read_render hreadable wanted
  refine ⟨text, Table.documentRead text, hrender, Table.document_read text, same_of_entries ?_, ?_⟩
  · rw [hsections, Mapping.sourceSections, List.forall₂_map_left_iff] at hreads
    have htabular := (List.forall₂_and_left _ _).mpr ⟨h.sections, hreads⟩
    exact (htabular.imp fun _ _ hboth => hboth.1.sameEntry hboth.2).flip
  · rw [hviolations, Table.markerViolations, hmarkers, length_sections]

/-- A block whose texts need quotes, and whose values are of all kinds. -/
def quotedBlock : Mapping where
  entries :=
    [⟨"name", .scalar (.text "a\t\"b\"") none, none⟩,
     ⟨"displayName", .scalar (.text " edge ") none, none⟩,
     ⟨"order", .scalar (.number .negZero) none, none⟩,
     ⟨"alias", .scalar .null none, none⟩,
     ⟨"shown", .scalar (.bool true) none, none⟩]
  position := none

/-- A document with such a block and without any field. -/
def quotedDocument : Document where
  entries :=
    [⟨"metadataBlock", .list [quotedBlock.toNode] none, none⟩, ⟨"datasetField", .list [] none, none⟩]
  position := none

theorem tabular_quotedDocument : Tabular quotedDocument := by
  refine ⟨List.forall_mem_cons.mpr ⟨?_, List.forall_mem_singleton.mpr ?_⟩, by decide⟩
  · have hrecord : ∀ {P : Mapping → Prop}, P quotedBlock →
        ∀ r ∈ (Node.list [quotedBlock.toNode] none).records, P r :=
      fun h => List.forall_mem_singleton.mpr h
    refine ⟨⟨.metadataBlock, rfl⟩, ⟨[quotedBlock], none, rfl⟩,
      ⟨quotedBlock.keys, ⟨by decide, by decide, by decide, by decide⟩, hrecord rfl⟩,
      hrecord ?_, hrecord ?_⟩
    · intro f hf
      simp only [quotedBlock, List.mem_cons, List.not_mem_nil, or_false] at hf
      rcases hf with rfl | rfl | rfl | rfl | rfl
      · exact ⟨_, rfl, by decide⟩
      · exact ⟨_, rfl, by decide⟩
      · exact ⟨_, rfl, by decide⟩
      · exact ⟨_, rfl, by decide⟩
      · exact ⟨_, rfl, by decide⟩
    · exact ⟨_, List.mem_cons_self, _, rfl, by decide⟩
  · exact ⟨⟨.datasetField, rfl⟩, ⟨[], none, rfl⟩,
      ⟨[], ⟨by decide, by decide, by decide, by decide⟩, List.forall_mem_nil _⟩,
      List.forall_mem_nil _, List.forall_mem_nil _⟩

theorem read_render_quotedDocument :
    ∃ text document', Table.render quotedDocument 0 = .ok text
      ∧ (Table.read text).document = some document'
      ∧ document'.toNode.same quotedDocument.toNode = true
      ∧ (Table.read text).violations = [] := by
  obtain ⟨text, document', hrender, hread, hsame, hviolations⟩ :=
    read_render_of_tabular tabular_quotedDocument 0
  exact ⟨text, document', hrender, hread, hsame, hviolations.trans (if_pos (.inl rfl))⟩

end MetadataBlock
