import MetadataBlock.Proofs.MarkerHeaders
import MetadataBlock.Proofs.RecordFields
import MetadataBlock.Proofs.WrittenTable
import MetadataBlock.Table.Reader

/-!
# Reading back what was written

The reader finds the sections of a written document again, with their keywords and
their headers, and every record with its cells decoded. Two things are lost on the
way: a record whose row is blank is skipped, and a record gets a field for every
header of its section.

- `isBlankRow`: the rows that the reader skips;
- `rowFields`, `keptRecords`, `ReadsBack`: what is read from a row and from a section;
- `Readable`: the sections that can be read back;
- `readSection_linesOf`, `read_render`: one section, and the whole document;
- `ReadsBack.forall₂`, `scalar?_of_fields`: the records that are read, one by one.
-/

namespace MetadataBlock.Table

open Text (tab lineFeed)

/-! ## Blank rows -/

/-- Is the cell written as nothing but white space? -/
def isBlankCell (cell : Text) : Bool :=
  Text.isAllBlank cell && !Row.needsQuotes cell

/-- Is the row of a record nothing but white space? -/
def isBlankRow (headers : List Text) (record : Mapping) : Bool :=
  headers.all fun header => isBlankCell (cellText record header)

/-- A quoted cell holds quotes, so it is not blank. -/
theorem isAllBlank_writeCell (cell : Text) :
    Text.isAllBlank (Row.writeCell cell) = isBlankCell cell := by
  rw [isBlankCell]
  cases h : Row.needsQuotes cell with
  | true =>
    rw [Row.writeCell_of_needsQuotes h, Bool.not_true, Bool.and_false]
    rfl
  | false => rw [Row.writeCell_of_not_needsQuotes h, Bool.not_false, Bool.and_true]

/-- A row is blank if its cells are, as a tab is white space. -/
theorem isAllBlank_write : ∀ row : List Text, Text.isAllBlank (Row.write row) = row.all isBlankCell
  | [] => rfl
  | [cell] => by
    rw [Row.write_singleton, isAllBlank_writeCell, List.all_cons, List.all_nil, Bool.and_true]
  | cell :: next :: cells => by
    have htab : Text.isAllBlank (tab :: Row.write (next :: cells))
        = Text.isAllBlank (Row.write (next :: cells)) := rfl
    rw [Row.write_cons_cons, Text.isAllBlank, List.all_append, ← Text.isAllBlank,
      ← Text.isAllBlank, isAllBlank_writeCell, htab, isAllBlank_write (next :: cells)]
    rfl

/-- Filling up does not count: the row is blank if the cells of the record are. -/
theorem isAllBlank_write_padRow (width : Nat) (headers : List Text) (record : Mapping) :
    Text.isAllBlank (Row.write (padRow width (recordCells headers record)))
      = isBlankRow headers record := by
  have hnil : isBlankCell [] = true := by decide
  rw [isAllBlank_write, padRow, List.all_append, recordCells, List.all_cons, List.all_map,
    List.all_replicate, hnil, ite_self, Bool.and_true, Bool.true_and]
  rfl

/-! ## Rows -/

/-- The fields that are read from the row of a record. -/
def rowFields (headers : List Text) (record : Mapping) : List (Text × Option Scalar) :=
  headers.map fun header => (header, some (Cell.parse (cellText record header)))

/-- The cells of a row go with the headers one by one; further cells make no entries. -/
theorem fields_rowEntries (position : Position) (cellOf : Text → Text) (rest : List Text) :
    ∀ headers : List Text,
      (rowEntries position headers (headers.map cellOf ++ rest)).map (fun e => (e.key, e.value.scalar?))
        = headers.map fun header => (header, some (Cell.parse (cellOf header)))
  | [] => rfl
  | _ :: headers => congrArg _ (fields_rowEntries position cellOf rest headers)

/-- A row that is not blank is read back. Its cells are found again, and those that only fill
it up are empty and make no entries. -/
theorem readRow_write {m : Marker} {record : Mapping} (h : isBlankRow m.headers record = false)
    (line width : Nat) :
    (readRow m line (Row.write (padRow width (recordCells m.headers record)))).record.fields
        = rowFields m.headers record
      ∧ (readRow m line (Row.write (padRow width (recordCells m.headers record)))).violations
        = [] := by
  obtain ⟨fill, hrow⟩ : ∃ n, padRow width (recordCells m.headers record)
      = [] :: (m.headers.map (cellText record) ++ List.replicate n []) := ⟨_, rfl⟩
  have hne : m.headers ≠ [] := by
    intro hnil
    rw [hnil] at h
    cases h
  -- only a row of one empty cell is written as nothing, and a row that shows a cell has more
  have hread : Row.read (Row.write (padRow width (recordCells m.headers record)))
      = ⟨padRow width (recordCells m.headers record), []⟩ := by
    refine Row.read_write (by rw [hrow]; exact List.cons_ne_nil _ _) ?_
    rw [hrow]
    intro hsingle
    have hcells := (List.append_eq_nil_iff.mp (List.cons.inj hsingle).2).1
    exact hne (List.map_eq_nil_iff.mp hcells)
  rw [readRow, hread, hrow]
  constructor
  · exact fields_rowEntries _ _ _ _
  · -- what lies beyond the headers was filled in, so it is empty
    have hbeyond : ((m.headers.map (cellText record) ++ List.replicate fill []).drop
        m.headers.length).filter (fun c : Text => !c.isEmpty) = [] := by
      rw [List.drop_left' (List.length_map ..), List.filter_replicate]
      rfl
    show [] ++ droppedCells _ m (m.headers.map (cellText record) ++ List.replicate fill []) = []
    rw [List.nil_append, droppedCells, hbeyond]
    rfl

/-- The rows of records are read back, the blank ones skipped. A skipped row still counts as a
line. -/
theorem readRows_write (m : Marker) (width : Nat) (records : List Mapping) (line : Nat) :
    (readRows m line
        (records.map fun r => Row.write (padRow width (recordCells m.headers r)))).map
          (·.record.fields)
      = (records.filter fun r => !isBlankRow m.headers r).map (rowFields m.headers)
      ∧ ∀ read ∈ readRows m line
          (records.map fun r => Row.write (padRow width (recordCells m.headers r))),
        read.violations = [] := by
  induction records generalizing line with
  | nil => exact ⟨rfl, fun _ h => (nomatch h)⟩
  | cons r records ih =>
    obtain ⟨hfields, hviolations⟩ := ih (line + 1)
    rw [List.map_cons, readRows, isAllBlank_write_padRow]
    cases hblank : isBlankRow m.headers r with
    | true =>
      -- the reader skips the row, and the record is not among the kept ones
      rw [if_pos rfl, List.filter_cons_of_neg (by rw [hblank]; exact Bool.false_ne_true)]
      exact ⟨hfields, hviolations⟩
    | false =>
      have hrow := readRow_write hblank line width
      rw [if_neg Bool.false_ne_true, List.filter_cons_of_pos (by rw [hblank]; rfl), List.map_cons,
        List.map_cons, hfields, hrow.1]
      exact ⟨rfl, List.forall_mem_cons.mpr ⟨hrow.2, hviolations⟩⟩

/-! ## Sections -/

/-- The sections that are read back from their lines. -/
structure Readable (s : Section) : Prop where
  keyword : Row.needsQuotes (Text.unit '#' :: s.keyword) = false
  renderable : ∀ r ∈ s.block.records, Renderable r
  trimmed : ∀ header ∈ headersOf s.block.records, Text.trim header = header
  header_lines : ∀ header ∈ headersOf s.block.records, lineFeed ∉ header
  last_header : (headersOf s.block.records).getLast? ≠ some []
  cell_lines : ∀ r ∈ s.block.records, ∀ header ∈ headersOf s.block.records,
    lineFeed ∉ cellText r header

/-- The records of a section whose rows are not blank. -/
def keptRecords (s : Section) : List Mapping :=
  s.block.records.filter fun r => !isBlankRow (headersOf s.block.records) r

/-- The fields of the records that are read from the lines of a section. -/
def rowsRead (s : Section) : List (List (Text × Option Scalar)) :=
  (keptRecords s).map (rowFields (headersOf s.block.records))

/-- The entry is what a section is read back as. -/
structure ReadsBack (s : Section) (e : Entry) : Prop where
  key : e.key = s.keyword
  list : e.value.HoldsRecords
  rows : e.value.records.map Mapping.fields = rowsRead s

/-- The line with the headers of a section is read as its keyword and its headers. The last
header is not empty, so only the cells that fill the line up are dropped. -/
theorem parseMarkerLine_write {s : Section} (h : Readable s) (width : Nat) :
    parseMarkerLine (Row.write (padRow width (headerRow s)))
      = ⟨s.keyword, headersOf s.block.records⟩ := by
  obtain ⟨fill, hrow⟩ : ∃ n, padRow width (headerRow s) = (Text.unit '#' :: s.keyword)
      :: (headersOf s.block.records ++ List.replicate n []) := ⟨_, rfl⟩
  have hread : Row.read (Row.write (padRow width (headerRow s)))
      = ⟨padRow width (headerRow s), []⟩ := by
    refine Row.read_write (by rw [hrow]; exact List.cons_ne_nil _ _) ?_
    rw [hrow]
    exact fun hsingle => nomatch (List.cons.inj hsingle).1
  have htrim : (headersOf s.block.records).map Text.trim = headersOf s.block.records :=
    (List.map_congr_left h.trimmed).trans (List.map_id _)
  rw [parseMarkerLine, hread, hrow]
  show Marker.mk s.keyword ((dropTrailingEmpty
    (headersOf s.block.records ++ List.replicate fill [])).map Text.trim) = _
  rw [dropTrailingEmpty_append _ fun _ => List.eq_of_mem_replicate,
    dropTrailingEmpty_eq_self h.last_header, htrim]

/-- What is read from the rows of a section are records. -/
theorem holdsRecords_readSection (slice : SectionSlice) :
    (readSection slice).entry.value.HoldsRecords := by
  refine ⟨(readRows (parseMarkerLine (slice.lines.headD [])) (slice.start + 2)
    slice.lines.tail).map (·.record), some ⟨slice.start + 1, none⟩, ?_⟩
  rw [List.map_map]
  rfl

theorem records_readSection (slice : SectionSlice) :
    (readSection slice).entry.value.records
      = (readRows (parseMarkerLine (slice.lines.headD [])) (slice.start + 2)
          slice.lines.tail).map (·.record) := by
  rw [← records_list (List.map _ _) (some ⟨slice.start + 1, none⟩), List.map_map]
  rfl

/-- A section is read back from its lines, wherever they stand. -/
theorem readSection_linesOf {s : Section} (h : Readable s) (start width : Nat) :
    ReadsBack s (readSection ⟨start, linesOf width s⟩).entry
      ∧ (readSection ⟨start, linesOf width s⟩).violations = [] := by
  have hmarker : parseMarkerLine ((linesOf width s).headD [])
      = ⟨s.keyword, headersOf s.block.records⟩ := parseMarkerLine_write h width
  have hrows : (linesOf width s).tail = s.block.records.map fun r =>
      Row.write (padRow width (recordCells (headersOf s.block.records) r)) := by
    rw [linesOf, ofSection, List.map_cons, List.tail_cons, List.map_map]
    rfl
  obtain ⟨hfields, hviolations⟩ :=
    readRows_write ⟨s.keyword, headersOf s.block.records⟩ width s.block.records (start + 2)
  refine ⟨⟨?_, holdsRecords_readSection _, ?_⟩, ?_⟩
  · rw [readSection, hmarker]
  · rw [records_readSection, hmarker, hrows, List.map_map]
    exact hfields
  · rw [readSection, hmarker, hrows, List.flatMap_eq_nil_iff]
    exact hviolations

/-- Sections that follow each other are all read back. Where one of them starts matters only
for positions. -/
theorem readSection_placed {sections : List Section} (h : ∀ s ∈ sections, Readable s)
    (start width : Nat) :
    List.Forall₂ (fun s slice => ReadsBack s (readSection slice).entry) sections
        (placed start (sections.map (linesOf width)))
      ∧ ∀ slice ∈ placed start (sections.map (linesOf width)),
        (readSection slice).violations = [] := by
  induction sections generalizing start with
  | nil => exact ⟨.nil, List.forall_mem_nil _⟩
  | cons s sections ih =>
    rw [List.forall_mem_cons] at h
    obtain ⟨hfirst, hviolations⟩ := readSection_linesOf h.1 start width
    obtain ⟨hrest, hviolations'⟩ := ih h.2 (start + (linesOf width s).length)
    exact ⟨.cons hfirst hrest, List.forall_mem_cons.mpr ⟨hviolations, hviolations'⟩⟩

/-- No line of a section holds a line feed, so the lines of a text are split as they were
joined. -/
theorem lineFeed_not_mem_linesOf {s : Section} (h : Readable s) (width : Nat) :
    ∀ line ∈ linesOf width s, lineFeed ∉ line := by
  intro line hline
  obtain ⟨row, hrow, rfl⟩ := List.mem_map.mp hline
  refine lineFeed_not_mem_write fun cell hcell => ?_
  -- a cell is the keyword, a header, the text of a value, or fills the row up
  rcases List.mem_append.mp hcell with hcell | hfill
  · rcases List.mem_cons.mp hrow with rfl | hrecord
    · rcases List.mem_cons.mp hcell with rfl | hheader
      · exact fun hmem => (Row.not_mem_of_needsQuotes h.keyword hmem).2.1 rfl
      · exact h.header_lines cell hheader
    · obtain ⟨r, hr, rfl⟩ := List.mem_map.mp hrecord
      rcases List.mem_cons.mp hcell with rfl | hcell
      · exact List.not_mem_nil
      · obtain ⟨header, hheader, rfl⟩ := List.mem_map.mp hcell
        exact h.cell_lines r hr header hheader
  · rw [List.eq_of_mem_replicate hfill]
    exact List.not_mem_nil

/-! ## Documents -/

/-- What is said about the number of sections of a file; nothing about two or three. -/
def markerViolations (lines : List Text) : List Violation :=
  if (markerPlaces lines).length = 2 ∨ (markerPlaces lines).length = 3 then []
  else [ambiguousMarkers (markerPlaces lines)]

/-- The document that is read from a source has one section for every marker. -/
def documentRead (source : Text) : Document :=
  ⟨(looseSections (splitLines source)).map fun slice => (readSection slice).entry, some ⟨1, none⟩⟩

theorem read_eq (source : Text) :
    read source =
      { document := some (documentRead source)
        violations := markerViolations (splitLines source)
          ++ preambleViolations ((splitLines source).take
              ((markerPlaces (splitLines source)).headD (splitLines source).length))
          ++ (looseSections (splitLines source)).flatMap fun slice =>
            (readSection slice).violations } := by
  rw [documentRead, markerViolations, ← violations_splitSections, ← preamble_splitSections,
    ← slices_splitSections, read, readDocument]
  simp only [List.map_map, List.flatMap_map]
  rfl

theorem document_read (source : Text) : (read source).document = some (documentRead source) := by
  rw [read_eq]

/-- A document is written, and reading the text gives its sections in canonical order. Nothing
is reported but an unexpected number of sections. The text is split into the lines of its
sections, each of them starts at the only marker in it, and then it is read back by itself. -/
theorem read_render {document : Document} (h : ∀ s ∈ document.sections, Readable s) (wanted : Nat) :
    ∃ text, render document wanted = .ok text
      ∧ (read text).violations = markerViolations (splitLines text)
      ∧ (markerPlaces (splitLines text)).length = document.sections.length
      ∧ List.Forall₂ ReadsBack document.sections (documentRead text).entries := by
  generalize hwidth : widthOf document.sections wanted = width
  have hrender := render_eq_linesOf (fun s hs => (h s hs).renderable) wanted
  rw [hwidth] at hrender
  generalize hlines : (document.sections.map (linesOf width)).flatten = lines at hrender
  -- splitting gives back the lines that were written
  have hsplit : splitLines (endLines lines) = lines := by
    subst hlines
    refine splitLines_endLines (fun line hline => ?_) (fun line hline => ?_)
    · obtain ⟨chunk, hchunk, hmem⟩ := List.mem_flatten.mp hline
      obtain ⟨s, hs, rfl⟩ := List.mem_map.mp hchunk
      exact lineFeed_not_mem_linesOf (h s hs) width line hmem
    · obtain ⟨chunk, hchunk, hmem⟩ := List.mem_flatten.mp hline
      obtain ⟨s, hs, rfl⟩ := List.mem_map.mp hchunk
      obtain ⟨row, -, rfl⟩ := List.mem_map.mp hmem
      exact getLast?_write_ne _
  -- each section is a chunk of these lines, and nothing stands in front of the first
  have hchunks : ∀ chunk ∈ document.sections.map (linesOf width), IsChunk chunk := by
    intro chunk hchunk
    obtain ⟨s, hs, rfl⟩ := List.mem_map.mp hchunk
    exact isChunk_linesOf (h s hs).keyword width
  have hplaces : markerPlaces lines
      = (placed 0 (document.sections.map (linesOf width))).map (·.start) := by
    rw [← hlines]
    exact markerPlaces_chunks (List.forall_mem_nil _) hchunks
  have hslices : looseSections lines = placed 0 (document.sections.map (linesOf width)) := by
    rw [← hlines]
    exact looseSections_chunks (List.forall_mem_nil _) hchunks
  have hpreamble : lines.take ((markerPlaces lines).headD lines.length) = [] := by
    rw [hplaces, ← hlines]
    cases document.sections <;> rfl
  obtain ⟨hreads, hviolations⟩ := readSection_placed h 0 width
  refine ⟨endLines lines, hrender, ?_, ?_, ?_⟩
  · rw [read_eq, hsplit, hpreamble, hslices, List.flatMap_eq_nil_iff.mpr hviolations,
      List.append_nil]
    exact List.append_nil _
  · rw [hsplit, hplaces, List.length_map, length_placed, List.length_map]
  · rw [documentRead, hsplit, hslices, List.forall₂_map_right_iff]
    exact hreads

/-! ## Records that were read -/

/-- The records that are read are the kept ones, each with a field for every header. -/
theorem ReadsBack.forall₂ {s : Section} {e : Entry} (h : ReadsBack s e) :
    List.Forall₂ (fun r r' => r'.fields = rowFields (headersOf s.block.records) r) (keptRecords s)
      e.value.records := by
  have hrows := h.rows
  rw [rowsRead, ← List.forall₂_eq_eq_eq, List.forall₂_map_left_iff,
    List.forall₂_map_right_iff] at hrows
  exact hrows.flip

section

variable {headers : List Text} {r r' : Mapping} (h : r'.fields = rowFields headers r)

include h

theorem keys_of_fields : r'.keys = headers := by
  rw [Mapping.keys_eq, h, rowFields, List.map_map]
  exact List.map_id headers

/-- What is looked up in a record that was read: there is a field for every header, whether the
record that was written had the key or not. -/
theorem scalar?_of_fields (key : Text) :
    r'.scalar? key = if key ∈ headers then some (Cell.parse (cellText r key)) else none := by
  rw [Mapping.scalar?_eq, h, rowFields, List.find?_map]
  by_cases hkey : key ∈ headers
  · obtain ⟨header, hfind⟩ : ∃ header, headers.find? (· == key) = some header :=
      Option.isSome_iff_exists.mp (List.find?_isSome.mpr ⟨key, hkey, beq_self_eq_true key⟩)
    have heq : header = key := by
      have := List.find?_some hfind
      exact beq_iff_eq.mp this
    rw [if_pos hkey]
    show ((headers.find? (· == key)).map _).bind _ = _
    rw [hfind, heq]
    rfl
  · have hnone : headers.find? (· == key) = none := by
      rw [List.find?_eq_none]
      intro header hheader heq
      exact hkey (beq_iff_eq.mp heq ▸ hheader)
    rw [if_neg hkey]
    show ((headers.find? (· == key)).map _).bind _ = _
    rw [hnone]
    rfl

/-- A cell that was written holds after reading what it decodes to. -/
theorem cellText_of_fields {key : Text} (hkey : key ∈ headers) :
    cellText r' key = Cell.render (Cell.parse (cellText r key)) := by
  rw [cellText, scalar?_of_fields h, if_pos hkey]
  rfl

end

end MetadataBlock.Table
