import MetadataBlock.Proofs.EmittedTable
import MetadataBlock.Proofs.SectionReordering

/-!
# The width of records and the width of a table

Validation counts the entries of every record, and outside the first kind of section a leading
column; the writer counts the distinct keys of a section and always a leading column. A record
that repeats no key has at most as many entries as its section has keys, so the width that
validation asks for is there already.

- `recordWidth_le`: a record is no wider than the header row of its section;
- `longestRow_le_widthOf`: no record is wider than the widest header row;
- `widthOf_of_le`: a width that the header rows have already changes nothing;
- `render_longestRow`: the width found by validation does not change the table.
-/

namespace MetadataBlock.Table

/-- A record without repeated keys is no wider than the header row of its section. -/
theorem recordWidth_le {s : Section} {record : Mapping} (hrecord : record ∈ s.block.records)
    (hdistinct : record.keys.Nodup) : recordWidth s.keyword record ≤ (headerRow s).length := by
  have hsubset : record.keys ⊆ headersOf s.block.records :=
    fun key hkey => mem_headersOf.mpr ⟨record, hrecord, hkey⟩
  have hle : record.keys.length ≤ (headersOf s.block.records).length :=
    (hdistinct.subperm hsubset).length_le
  rw [Mapping.keys, List.length_map] at hle
  rw [recordWidth, headerRow, List.length_cons]
  split <;> omega

/-- The widest record is no wider than the widest header row. -/
theorem longestRow_le_widthOf {document : Document}
    (h : ∀ e ∈ document.entries, ∀ record ∈ e.value.records, record.keys.Nodup) :
    document.longestRow ≤ widthOf document.sections 0 := by
  obtain ⟨hmem, -⟩ := isGreatest_foldl_max (Reordering.recordWidths document) 0
  obtain ⟨-, hle⟩ := isGreatest_widthOf document.sections 0
  rw [Reordering.longestRow_eq_foldl]
  rcases hmem with hzero | hmem
  · rw [hzero]
    exact Nat.zero_le _
  · obtain ⟨e, he, hmem⟩ := List.mem_flatMap.mp hmem
    obtain ⟨record, hrecord, hwidth⟩ := List.mem_map.mp hmem
    have hs : (⟨e.key, e.value⟩ : Section) ∈ document.sections :=
      mem_sections.mpr ⟨e, he, rfl⟩
    -- a record without repeated keys is no wider than the header row of its section
    have hheader : (headerRow ⟨e.key, e.value⟩).length ≤ widthOf document.sections 0 :=
      hle (.inr ⟨_, hs, rfl⟩)
    have hrow : recordWidth e.key record ≤ (headerRow ⟨e.key, e.value⟩).length :=
      recordWidth_le (s := ⟨e.key, e.value⟩) hrecord (h e he record hrecord)
    rw [← hwidth]
    exact Nat.le_trans hrow hheader

/-- To want no more than the widest header row has is to want nothing. -/
theorem widthOf_of_le {sections : List Section} {wanted : Nat} (h : wanted ≤ widthOf sections 0) :
    widthOf sections wanted = widthOf sections 0 := by
  obtain ⟨hmem, hle⟩ := isGreatest_widthOf sections wanted
  obtain ⟨hmem', hle'⟩ := isGreatest_widthOf sections 0
  apply Nat.le_antisymm
  · rcases hmem with hwanted | hheader
    · rw [hwanted]
      exact h
    · exact hle' (.inr hheader)
  · rcases hmem' with hzero | hheader
    · rw [hzero]
      exact Nat.zero_le _
    · exact hle (.inr hheader)

/-- In a document whose records repeat no key, the widest record is no wider than some header
row, so that the document is written as if no width were asked for. -/
theorem render_longestRow {document : Document}
    (h : ∀ e ∈ document.entries, ∀ record ∈ e.value.records, record.keys.Nodup) :
    (document.longestRow = 0 ∨ ∃ s ∈ document.sections, document.longestRow ≤ (headerRow s).length)
      ∧ render document document.longestRow = render document 0 := by
  have hle := longestRow_le_widthOf h
  constructor
  · rcases (isGreatest_widthOf document.sections 0).1 with hzero | ⟨s, hs, hlength⟩
    · rw [hzero] at hle
      exact .inl (Nat.le_zero.mp hle)
    · rw [hlength] at hle
      exact .inr ⟨s, hs, hle⟩
  · rw [render, render, ofDocument, ofDocument, widthOf_of_le hle]

/-- A section of records with one and with two keys, and one of records that differ in theirs. -/
def unevenDocument : Document :=
  ⟨[⟨"metadataBlock",
      .list [.mapping [⟨"name", .scalar (.text "a") none, none⟩] none,
        .mapping [⟨"name", .scalar (.text "b") none, none⟩,
          ⟨"displayName", .scalar .null none, none⟩] none] none, none⟩,
    ⟨"datasetField",
      .list [.mapping [⟨"name", .scalar (.text "c") none, none⟩,
          ⟨"title", .scalar (.text "C") none, none⟩] none,
        .scalar .null none,
        .mapping [⟨"watermark", .scalar (.text "W") none, none⟩,
          ⟨"name", .scalar (.number 1) none, none⟩] none]
      none, none⟩], none⟩

theorem render_longestRow_unevenDocument :
    (∀ e ∈ unevenDocument.entries, ∀ record ∈ e.value.records, record.keys.Nodup)
      ∧ (unevenDocument.longestRow = 0 ∨ ∃ s ∈ unevenDocument.sections,
          unevenDocument.longestRow ≤ (headerRow s).length)
      ∧ render unevenDocument unevenDocument.longestRow = render unevenDocument 0 := by
  have hdistinct : ∀ e ∈ unevenDocument.entries, ∀ record ∈ e.value.records, record.keys.Nodup := by
    decide
  exact ⟨hdistinct, render_longestRow hdistinct⟩

end MetadataBlock.Table
