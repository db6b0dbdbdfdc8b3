import MetadataBlock.Proofs.TableLayout

/-!
# No data is dropped silently

Behind its leading cell, every cell of a row that is not empty is decoded under its
header in the record of the row, or a warning at the line of the row tells that
something was left out. The leading cell is not read and not reported.

- `DataRow`, `DataRow.exists_marker`: the rows of a file, each below its marker;
- `KeptCell`, `Reported`: what becomes of a cell;
- `keptCell_of_lt`, `reported_of_le`: a cell below a header, and one beyond them;
- `keptCell_or_reported`: every cell behind the leading one;
- `leadingCell_dropped`: a leading cell that is lost without a warning.
-/

namespace MetadataBlock.Table

/-! ## Rows -/

/-- A line with its number that holds data: it stands below a marker, and it is neither
blank nor a marker itself. -/
structure DataRow (lines : List Text) (row : Text × Nat) : Prop where
  line : row ∈ lines.zipIdx 1
  shown : Text.isAllBlank row.1 = false
  unmarked : isMarkerLine row.1 = false
  below : ∃ marker ∈ markers lines, marker.2 < row.2

/-- Lines with a marker have a last one. The induction looks for it behind each line first. -/
theorem exists_last_marker {lines : List Text} (h : ∃ line ∈ lines, isMarkerLine line = true) :
    ∃ above marker between, lines = above ++ marker :: between ∧ isMarkerLine marker = true
      ∧ ∀ line ∈ between, isMarkerLine line = false := by
  induction lines with
  | nil =>
    obtain ⟨line, hline, -⟩ := h
    cases hline
  | cons line lines ih =>
    by_cases hlater : ∃ other ∈ lines, isMarkerLine other = true
    · obtain ⟨above, marker, between, rfl, hmarker, hbetween⟩ := ih hlater
      exact ⟨line :: above, marker, between, rfl, hmarker, hbetween⟩
    · -- no other line is a marker, so this one is the last
      have hbetween : ∀ other ∈ lines, isMarkerLine other = false := by
        intro other hother
        rw [← Bool.not_eq_true]
        exact fun hmarker => hlater ⟨other, hother, hmarker⟩
      obtain ⟨marker, hmem, hmarker⟩ := h
      rcases List.mem_cons.mp hmem with rfl | hmem
      · exact ⟨[], marker, lines, rfl, hmarker, hbetween⟩
      · exact absurd ⟨marker, hmem, hmarker⟩ hlater

theorem mem_markers_append {above below : List Text} {marker : Text}
    (h : isMarkerLine marker = true) :
    (marker, above.length + 1) ∈ markers (above ++ marker :: below) := by
  rw [markers, List.mem_filter, List.zipIdx_append, List.zipIdx_cons, Nat.add_comm 1]
  exact ⟨List.mem_append_right _ List.mem_cons_self, h⟩

/-- A line is a row below a marker if no other marker stands between them. -/
theorem mem_rowsBelow_append {above between after : List Text} {marker row : Text}
    (hbetween : ∀ line ∈ between, isMarkerLine line = false) (hrow : isMarkerLine row = false)
    (hshown : Text.isAllBlank row = false) :
    (row, above.length + 2 + between.length)
      ∈ rowsBelow (above ++ marker :: (between ++ row :: after)) (above.length + 1) := by
  rw [rowsBelow, List.drop_length_add_append, List.drop_succ_cons, List.drop_zero,
    List.takeWhile_append_of_pos (by simpa using hbetween),
    List.takeWhile_cons_of_pos (by simp [hrow]), List.mem_filter, List.zipIdx_append,
    List.zipIdx_cons]
  exact ⟨List.mem_append_right _ List.mem_cons_self, by simp [hshown]⟩

/-- A line with its number, and the lines around it. -/
theorem exists_append_of_mem_zipIdx {lines : List Text} {line : Text} {number : Nat}
    (h : (line, number) ∈ lines.zipIdx 1) :
    ∃ before after, lines = before ++ line :: after ∧ number = before.length + 1 := by
  obtain ⟨hpos, hget⟩ := List.mk_mem_zipIdx_iff_le_and_getElem?_sub.mp h
  obtain ⟨hlt, hget⟩ := List.getElem?_eq_some_iff.mp hget
  refine ⟨lines.take (number - 1), lines.drop (number - 1 + 1), ?_, ?_⟩
  · rw [← hget, List.getElem_cons_drop, List.take_append_drop]
  · rw [List.length_take]
    omega

/-- A row stands below the last marker in front of it, and is read with its headers. -/
theorem DataRow.exists_marker {lines : List Text} {row : Text × Nat} (h : DataRow lines row) :
    ∃ marker ∈ markers lines, row ∈ rowsBelow lines marker.2 := by
  obtain ⟨text, number⟩ := row
  obtain ⟨hline, hshown, hunmarked, ⟨first, place⟩, hfirst, hplace⟩ := h
  obtain ⟨before, after, rfl, rfl⟩ := exists_append_of_mem_zipIdx hline
  -- the marker with the smaller number stands in front of the row
  have hmarked : ∃ line ∈ before, isMarkerLine line = true := by
    obtain ⟨hmem, hmarker⟩ := List.mem_filter.mp hfirst
    rw [List.zipIdx_append, List.mem_append] at hmem
    rcases hmem with hmem | hmem
    · exact ⟨first, List.fst_mem_of_mem_zipIdx hmem, hmarker⟩
    · have hbehind := List.le_snd_of_mem_zipIdx hmem
      simp only at hbehind hplace
      omega
  obtain ⟨above, marker, between, rfl, hmarker, hbetween⟩ := exists_last_marker hmarked
  have hnumber : (above ++ marker :: between).length + 1 = above.length + 2 + between.length := by
    rw [List.length_append, List.length_cons]
    omega
  refine ⟨(marker, above.length + 1), ?_, ?_⟩
  · rw [List.append_assoc, List.cons_append]
    exact mem_markers_append hmarker
  · rw [hnumber, List.append_assoc, List.cons_append]
    exact mem_rowsBelow_append hbetween hunmarked hshown

/-! ## Cells -/

/-- A cell in a column behind the leading one is decoded under its header in the record
of the row. -/
def KeptCell (source : Text) (row : Text × Nat) (column : Nat) (cell : Text) : Prop :=
  ∃ document, (read source).document = some document
    ∧ ∃ marker ∈ markers (splitLines source), row ∈ rowsBelow (splitLines source) marker.2
    ∧ ∃ e ∈ document.entries, e.keyPosition = some ⟨marker.2, none⟩
    ∧ ∃ r ∈ e.value.records, r.position = some ⟨row.2, none⟩
    ∧ ∃ header, (parseMarkerLine marker.1).headers[column]? = some header
    ∧ r.entries[column]?
        = some ⟨header, .scalar (Cell.parse cell) (some ⟨row.2, none⟩), none⟩

/-- A warning about the layout stands at the line of the row. -/
def Reported (source : Text) (row : Text × Nat) : Prop :=
  ∃ v ∈ (read source).violations, v.origin = .reader .tabularLayout ∧ v.line = some row.2

/-- A cell that is not empty and has no header is counted among the dropped ones, wherever it
stands behind the headers. -/
theorem droppedCells_ne_nil {position : Position} {m : Marker} {cells : List Text} {column : Nat}
    {cell : Text} (hcell : cells[column]? = some cell) (hne : cell ≠ [])
    (h : m.headers.length ≤ column) : droppedCells position m cells ≠ [] := by
  have hbeyond : cell ∈ (cells.drop m.headers.length).filter fun c => !c.isEmpty := by
    rw [List.mem_filter]
    refine ⟨List.mem_of_getElem? (i := column - m.headers.length) ?_, ?_⟩
    · rw [List.getElem?_drop, Nat.add_sub_cancel' h, hcell]
    · simpa using hne
  rw [droppedCells]
  split
  · next hnone =>
    rw [List.length_eq_zero_iff.mp hnone] at hbeyond
    cases hbeyond
  · exact List.cons_ne_nil _ _

section

variable {source : Text} {marker row : Text × Nat} (hmarker : marker ∈ markers (splitLines source))
  (hrow : row ∈ rowsBelow (splitLines source) marker.2) {column : Nat} {cell : Text}
  (hcell : (Row.read row.1).cells[column + 1]? = some cell)

include hmarker hrow hcell

/-- A cell that has a header is decoded under it. Headers and cells go together one by one, so
the column is the same in both. -/
theorem keptCell_of_lt (h : column < (parseMarkerLine marker.1).headers.length) :
    KeptCell source row column cell := by
  have hentry : (recordAt (parseMarkerLine marker.1).headers row).entries[column]?
      = some ⟨(parseMarkerLine marker.1).headers[column],
          .scalar (Cell.parse cell) (some ⟨row.2, none⟩), none⟩ := by
    rw [recordAt, List.getElem?_map, List.getElem?_zipIdx, List.getElem?_eq_getElem h]
    simp [Nat.add_comm 1, hcell]
  refine ⟨⟨(markers (splitLines source)).map (sectionAt (splitLines source)), some ⟨1, none⟩⟩, ?_,
    marker, hmarker, hrow, sectionAt (splitLines source) marker, List.mem_map_of_mem hmarker, rfl,
    recordAt (parseMarkerLine marker.1).headers row, ?_, rfl,
    (parseMarkerLine marker.1).headers[column], List.getElem?_eq_getElem h, hentry⟩
  · rw [read_eq_sections]
  · rw [records_sectionAt]
    exact List.mem_map_of_mem hrow

/-- A cell beyond the headers is reported, unless it is empty. One warning at the line stands
for all such cells of a row. -/
theorem reported_of_le (hne : cell ≠ [])
    (h : (parseMarkerLine marker.1).headers.length ≤ column) : Reported source row := by
  have hdropped : droppedCells ⟨row.2, none⟩ (parseMarkerLine marker.1) (Row.read row.1).cells.tail
      ≠ [] := by
    refine droppedCells_ne_nil ?_ hne h
    rw [List.getElem?_tail, hcell]
  obtain ⟨v, hv⟩ : ∃ v, v ∈ (readRow (parseMarkerLine marker.1) row.2 row.1).violations := by
    obtain ⟨v, hv⟩ := List.exists_mem_of_ne_nil _ hdropped
    exact ⟨v, List.mem_append_right _ hv⟩
  obtain ⟨horigin, hline⟩ := violations_readRow _ _ _ v hv
  refine ⟨v, ?_, horigin, hline⟩
  rw [read_eq_sections]
  refine List.mem_append_right _ (List.mem_flatMap.mpr ⟨marker, hmarker, ?_⟩)
  exact List.mem_flatMap.mpr ⟨row, hrow, hv⟩

end

/-- Every cell of a row that is not empty is decoded under its header in the record of the
row, unless it is the leading cell, or else a warning stands at the line of the row. -/
theorem keptCell_or_reported {source : Text} {row : Text × Nat}
    (hrow : DataRow (splitLines source) row) {column : Nat} {cell : Text}
    (hcell : (Row.read row.1).cells[column + 1]? = some cell) (hne : cell ≠ []) :
    KeptCell source row column cell ∨ Reported source row := by
  obtain ⟨marker, hmarker, hbelow⟩ := hrow.exists_marker
  by_cases h : column < (parseMarkerLine marker.1).headers.length
  · exact .inl (keptCell_of_lt hmarker hbelow hcell h)
  · exact .inr (reported_of_le hmarker hbelow hcell hne (Nat.not_lt.mp h))

/-- A table with a row that is longer than the headers and quotes a cell. -/
def longRow : Text :=
  "note\n#metadataBlock\tname\n\n\t\"a\tb\"\tmore\n#datasetField"

/-- The second cell of the row is reported, since it has no header. -/
theorem keptCell_or_reported_longRow :
    DataRow (splitLines longRow) ("\t\"a\tb\"\tmore", 4)
      ∧ (KeptCell longRow ("\t\"a\tb\"\tmore", 4) 0 "a\tb"
        ∨ Reported longRow ("\t\"a\tb\"\tmore", 4))
      ∧ (KeptCell longRow ("\t\"a\tb\"\tmore", 4) 1 "more"
        ∨ Reported longRow ("\t\"a\tb\"\tmore", 4)) := by
  have hrow : DataRow (splitLines longRow) ("\t\"a\tb\"\tmore", 4) :=
    ⟨by decide +kernel, by decide, by decide, by decide +kernel⟩
  exact ⟨hrow, keptCell_or_reported hrow (by decide +kernel) (by decide),
    keptCell_or_reported hrow (by decide +kernel) (by decide)⟩

/-- A table with a row that does not start with an empty cell. -/
def shiftedRow : Text :=
  "#metadataBlock\tname\tdisplayName\na\tA\n#datasetField"

/-- The leading cell of the row is not empty, but no record holds its value, and nothing
is reported. -/
theorem leadingCell_dropped :
    DataRow (splitLines shiftedRow) ("a\tA", 2)
      ∧ (Row.read "a\tA").cells = ["a", "A"]
      ∧ (∀ document, (read shiftedRow).document = some document →
          ∀ e ∈ document.entries, ∀ r ∈ e.value.records, ∀ f ∈ r.entries,
            f.value.scalar? ≠ some (Cell.parse "a"))
      ∧ (read shiftedRow).violations = [] := by
  refine ⟨⟨by decide +kernel, by decide, by decide, by decide +kernel⟩, by decide +kernel,
    fun document hdocument => ?_, by decide +kernel⟩
  rw [document_read] at hdocument
  cases hdocument
  decide +kernel

end MetadataBlock.Table
