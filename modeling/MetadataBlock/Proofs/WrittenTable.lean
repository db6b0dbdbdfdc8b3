import MetadataBlock.Proofs.FirstOccurrence
import MetadataBlock.Proofs.RecordFields
import MetadataBlock.Proofs.RowQuoting
import MetadataBlock.Proofs.SectionLines
import MetadataBlock.Table.Writer

/-!
# What is written

A document whose records hold scalars is written as a table, and the text of a
table is its rows, each ended by a line feed.

- `cellText`, `ofSection`: the cells of a record and the rows of a section;
- `Renderable`, `render_eq_ok`: the records that can be written, and the text of
  a document;
- `headersOf_eq`: the header row lists every key once;
- `lineFeed_not_mem_write`, `getLast?_write_ne`, `isChunk_linesOf`: a line holds
  no line feed unless a cell does, never ends in a carriage return, and is a
  marker only where a section begins;
- `splitLines_writeAll`, `written_row_reads_back`: the lines of the text are those
  of the rows, and each is read as the cells of its row.
-/

namespace MetadataBlock.Table

open Text (tab lineFeed carriageReturn doubleQuote)

/-! ## Cells and rows -/

/-- The text of a record's cell below a header: that of the first scalar under the
key, and empty without one. -/
def cellText (record : Mapping) (header : Text) : Text :=
  ((record.scalar? header).map Cell.render).getD []

/-- Every value that a record is written with is a scalar. -/
def Renderable (record : Mapping) : Prop :=
  ∀ key node, record.entry? key = some node → node.isScalar = true

/-- A record of scalars can be written. -/
theorem renderable_of_scalars {record : Mapping}
    (h : ∀ e ∈ record.entries, e.value.isScalar = true) : Renderable record := by
  intro key node hnode
  obtain ⟨e, he, -, rfl⟩ := Mapping.mem_of_entry? hnode
  exact h e he

/-- No cell of such a record stops the writing. -/
theorem cellOf_eq_ok {record : Mapping} (h : Renderable record) (keyword header : Text) :
    cellOf keyword record header = .ok (cellText record header) := by
  rw [cellOf, cellText, Mapping.scalar?, Mapping.scalarAt?]
  cases hentry : record.entry? header with
  | none => rfl
  | some node =>
    cases node with
    | scalar value position => rfl
    | list items position => cases h header _ hentry
    | mapping entries position => cases h header _ hentry

/-- If no step fails, the results are those of the steps. -/
theorem mapM_eq_ok {α β ε : Type} {f : α → Except ε β} {g : α → β} {l : List α}
    (h : ∀ a ∈ l, f a = .ok (g a)) : l.mapM f = .ok (l.map g) := by
  induction l with
  | nil => rfl
  | cons a l ih =>
    rw [List.forall_mem_cons] at h
    rw [List.mapM_cons, h.1, ih h.2]
    rfl

/-- The cells of a record behind the empty first one. -/
def recordCells (headers : List Text) (record : Mapping) : List Text :=
  [] :: headers.map (cellText record)

/-- The rows of a section, not filled up yet. -/
def ofSection (s : Section) : List (List Text) :=
  headerRow s :: s.block.records.map (recordCells (headersOf s.block.records))

theorem sectionRows_eq_ok {s : Section} (h : ∀ r ∈ s.block.records, Renderable r) :
    sectionRows s = .ok (ofSection s) := by
  have hrecord : ∀ r ∈ s.block.records,
      recordRow s.keyword (headersOf s.block.records) r
        = .ok (recordCells (headersOf s.block.records) r) := by
    intro r hr
    rw [recordRow, mapM_eq_ok fun header _ => cellOf_eq_ok (h r hr) s.keyword header]
    rfl
  rw [sectionRows, mapM_eq_ok hrecord]
  rfl

/-- The rows of a document, all of one width. -/
def rowsOf (document : Document) (wanted : Nat) : List (List Text) :=
  (document.sections.map ofSection).flatten.map (padRow (widthOf document.sections wanted))

theorem ofDocument_eq_ok {document : Document}
    (h : ∀ s ∈ document.sections, ∀ r ∈ s.block.records, Renderable r) (wanted : Nat) :
    ofDocument document wanted = .ok (rowsOf document wanted) := by
  rw [ofDocument, mapM_eq_ok fun s hs => sectionRows_eq_ok (h s hs)]
  rfl

theorem writeAll_append_lineFeed : ∀ rows : List (List Text), rows ≠ [] →
    Row.writeAll rows ++ [lineFeed] = endLines (rows.map Row.write)
  | [], h => absurd rfl h
  | [row], _ => by simp [Row.writeAll, Text.joinWith, endLines]
  | row :: next :: rows, _ => by
    have ih := writeAll_append_lineFeed (next :: rows) (List.cons_ne_nil _ _)
    rw [List.map_cons, endLines_cons, ← ih]
    simp [Row.writeAll, Text.joinWith, List.intercalate_cons_cons]

/-- The text of a table is its rows, each ended by a line feed. A table without rows has an
empty text. -/
theorem render_of_ofDocument {document : Document} {wanted : Nat} {rows : List (List Text)}
    (h : ofDocument document wanted = .ok rows) :
    render document wanted = .ok (endLines (rows.map Row.write)) := by
  rw [render, h]
  cases rows with
  | nil => rfl
  | cons row rows =>
    rw [← writeAll_append_lineFeed (row :: rows) (List.cons_ne_nil row rows)]
    rfl

/-- The text of a document is its rows, each ended by a line feed. -/
theorem render_eq_ok {document : Document}
    (h : ∀ s ∈ document.sections, ∀ r ∈ s.block.records, Renderable r) (wanted : Nat) :
    render document wanted = .ok (endLines ((rowsOf document wanted).map Row.write)) :=
  render_of_ofDocument (ofDocument_eq_ok h wanted)

/-! ## Headers -/

/-- The headers are the keys of all records, each once, in the order in which they are seen
first. -/
theorem headersOf_eq (records : List Mapping) :
    headersOf records = (records.flatMap Mapping.keys).eraseDups := by
  rw [headersOf, ← List.foldl_flatMap]
  refine foldl_push_eq (fun seen key h => ?_) (fun seen key h => ?_) [] _
  · rw [if_pos (List.contains_iff_mem.mpr h)]
  · rw [if_neg fun hc => h (List.contains_iff_mem.mp hc)]

theorem mem_headersOf {records : List Mapping} {key : Text} :
    key ∈ headersOf records ↔ ∃ r ∈ records, key ∈ r.keys := by
  rw [headersOf_eq, List.mem_eraseDups, List.mem_flatMap]

/-- Records that all have the same keys have these as their headers, each once. -/
theorem headersOf_of_same_keys {records : List Mapping} {keys : List Text}
    (hne : records ≠ []) (h : ∀ r ∈ records, r.keys = keys) :
    headersOf records = keys.eraseDups := by
  obtain ⟨r, rest, rfl⟩ := List.exists_cons_of_ne_nil hne
  rw [List.forall_mem_cons] at h
  rw [headersOf_eq, List.flatMap_cons, h.1]
  refine eraseDups_append_of_subset fun key hkey => ?_
  obtain ⟨r', hr', hmem⟩ := List.mem_flatMap.mp hkey
  rwa [h.2 r' hr'] at hmem

/-! ## Lines -/

section

variable {P : UInt16 → Prop}

theorem doubleQuotes_forall {cell : Text} (h : ∀ u ∈ cell, P u) :
    ∀ u ∈ Row.doubleQuotes cell, P u := by
  intro u hu
  obtain ⟨v, hv, hmem⟩ := List.mem_flatMap.mp hu
  split at hmem
  · next hq =>
    rw [← beq_iff_eq.mp hq] at hmem
    have huv : u = v := by simpa using hmem
    exact huv ▸ h v hv
  · rw [List.mem_singleton.mp hmem]
    exact h v hv

theorem writeCell_forall {cell : Text} (hq : P doubleQuote) (h : ∀ u ∈ cell, P u) :
    ∀ u ∈ Row.writeCell cell, P u := by
  cases hn : Row.needsQuotes cell with
  | false =>
    rw [Row.writeCell_of_not_needsQuotes hn]
    exact h
  | true =>
    rw [Row.writeCell_of_needsQuotes hn, List.forall_mem_append, List.forall_mem_cons]
    exact ⟨⟨hq, doubleQuotes_forall h⟩, by simpa using hq⟩

/-- Writing a row adds quotes and tabs to its cells and nothing else. -/
theorem write_forall (hq : P doubleQuote) (ht : P tab) : ∀ {row : List Text},
    (∀ cell ∈ row, ∀ u ∈ cell, P u) → ∀ u ∈ Row.write row, P u
  | [], _ => by simp [Row.write, Text.joinWith]
  | [cell], h => by
    rw [Row.write_singleton]
    exact writeCell_forall hq (h cell List.mem_cons_self)
  | cell :: next :: cells, h => by
    rw [List.forall_mem_cons] at h
    rw [Row.write_cons_cons, List.forall_mem_append, List.forall_mem_cons]
    exact ⟨writeCell_forall hq h.1, ht, write_forall hq ht h.2⟩

end

/-- A row without line feeds in its cells is one line, as writing adds none. -/
theorem lineFeed_not_mem_write {row : List Text} (h : ∀ cell ∈ row, lineFeed ∉ cell) :
    lineFeed ∉ Row.write row := by
  intro hmem
  refine write_forall (P := (· ≠ lineFeed)) (by decide) (by decide) (fun cell hcell u hu => ?_)
    lineFeed hmem rfl
  rintro rfl
  exact h cell hcell hu

theorem getLast?_writeCell_ne (cell : Text) :
    (Row.writeCell cell).getLast? ≠ some carriageReturn := by
  cases h : Row.needsQuotes cell with
  | true =>
    rw [Row.writeCell_of_needsQuotes h, List.getLast?_concat]
    decide
  | false =>
    rw [Row.writeCell_of_not_needsQuotes h]
    intro hlast
    exact (Row.not_mem_of_needsQuotes h (List.mem_of_getLast? hlast)).1 rfl

/-- A line never ends in a carriage return, which splitting would drop. A cell that ends in one
is quoted, so a quote comes last. -/
theorem getLast?_write_ne : ∀ row : List Text, (Row.write row).getLast? ≠ some carriageReturn
  | [] => by decide
  | [cell] => by
    rw [Row.write_singleton]
    exact getLast?_writeCell_ne cell
  | cell :: next :: cells => by
    rw [Row.write_cons_cons]
    have ih := getLast?_write_ne (next :: cells)
    -- the last unit is that of the rest of the row, or the tab in front of it
    cases hrest : Row.write (next :: cells) with
    | nil => simp; decide
    | cons u rest =>
      rw [hrest] at ih
      rwa [List.getLast?_append, List.getLast?_cons_cons, List.getLast?_cons, Option.some_or,
        ← List.getLast?_cons]

/-- Splitting the text of a table gives back the lines of its rows, whatever else is in their
cells. -/
theorem splitLines_writeAll {rows : List (List Text)} (hne : rows ≠ [])
    (h : ∀ row ∈ rows, ∀ cell ∈ row, lineFeed ∉ cell) :
    splitLines (Row.writeAll rows ++ [lineFeed]) = rows.map Row.write := by
  rw [writeAll_append_lineFeed rows hne]
  refine splitLines_endLines (fun line hline => ?_) (fun line hline => ?_)
  · obtain ⟨row, hrow, rfl⟩ := List.mem_map.mp hline
    exact lineFeed_not_mem_write (h row hrow)
  · obtain ⟨row, -, rfl⟩ := List.mem_map.mp hline
    exact getLast?_write_ne row

/-- A row of a table without line feeds in its cells is one line of the text, and
this line is read as the cells of the row, without a fault, whatever else they hold.
Only a single empty cell is lost: its line is empty, and that is read as no cell. -/
theorem written_row_reads_back {rows : List (List Text)} {n : Nat} {row : List Text}
    (hrow : rows[n]? = some row) (h : ∀ row ∈ rows, ∀ cell ∈ row, lineFeed ∉ cell) :
    (splitLines (Row.writeAll rows ++ [lineFeed]))[n]? = some (Row.write row) ∧
      (Row.read (Row.write row) = ⟨row, []⟩ ↔ row ≠ [[]]) := by
  have hne : rows ≠ [] := List.ne_nil_of_mem (List.mem_of_getElem? hrow)
  refine ⟨by rw [splitLines_writeAll hne h, List.getElem?_map, hrow, Option.map_some], ?_, ?_⟩
  · rintro hread rfl
    cases hread
  · intro hrow'
    by_cases hempty : row = []
    · subst hempty
      rfl
    · exact Row.read_write hempty hrow'

/-- Tabs, quotes, carriage returns, a byte order mark and spaces at the edges are kept. -/
theorem written_row_reads_back_awkwardCells :
    let row : List Text := [[], "a\tb", "\"c\"\"", "d\r", [Text.byteOrderMark], " e "]
    (splitLines (Row.writeAll [["#f", "g"], row] ++ [lineFeed]))[1]? = some (Row.write row) ∧
      Row.read (Row.write row) = ⟨row, []⟩ := by
  intro row
  have hrow : ([["#f", "g"], row] : List (List Text))[1]? = some row := rfl
  obtain ⟨hline, hread⟩ := written_row_reads_back hrow (by decide)
  exact ⟨hline, hread.mpr (by decide)⟩

/-! ## The lines of a section -/

/-- The lines of a section, its rows filled up to a width. -/
def linesOf (width : Nat) (s : Section) : List Text :=
  (ofSection s).map fun row => Row.write (padRow width row)

/-- Known keywords are written without quotes. -/
theorem needsQuotes_marker (k : SectionKeyword) :
    Row.needsQuotes (Text.unit '#' :: k.text) = false := by
  cases k <;> decide

/-- A row that begins with an unquoted marker is a marker line. -/
theorem isMarkerLine_write {keyword : Text} (h : Row.needsQuotes (Text.unit '#' :: keyword) = false) :
    ∀ cells : List Text, isMarkerLine (Row.write ((Text.unit '#' :: keyword) :: cells)) = true
  | [] => by
    rw [Row.write_singleton, Row.writeCell_of_not_needsQuotes h]
    rfl
  | next :: cells => by
    rw [Row.write_cons_cons, Row.writeCell_of_not_needsQuotes h]
    rfl

/-- A row with an empty first cell is no marker line. -/
theorem isMarkerLine_write_nil : ∀ cells : List Text, isMarkerLine (Row.write ([] :: cells)) = false
  | [] => by decide
  | next :: cells => by
    rw [Row.write_cons_cons]
    rfl

/-- A section is written as a marker line with its records below, none of which looks like a
marker. -/
theorem isChunk_linesOf {s : Section} (h : Row.needsQuotes (Text.unit '#' :: s.keyword) = false)
    (width : Nat) : IsChunk (linesOf width s) := by
  rw [linesOf, ofSection, List.map_cons]
  refine ⟨isMarkerLine_write h _, fun line hline => ?_⟩
  obtain ⟨row, hrow, rfl⟩ := List.mem_map.mp hline
  obtain ⟨r, -, rfl⟩ := List.mem_map.mp hrow
  exact isMarkerLine_write_nil _

/-- The text of a document consists of the lines of its sections. -/
theorem render_eq_linesOf {document : Document}
    (h : ∀ s ∈ document.sections, ∀ r ∈ s.block.records, Renderable r) (wanted : Nat) :
    render document wanted = .ok
      (endLines (document.sections.map (linesOf (widthOf document.sections wanted))).flatten) := by
  rw [render_eq_ok h, rowsOf, List.map_map, List.map_flatten, List.map_map]
  rfl

end MetadataBlock.Table
