import MetadataBlock.Proofs.ReadBack

/-!
# Sections and records, line by line

The reader opens a section at every marker line and reads a record from every line
below it that is not blank. Both the split into two or three sections and the walk
over any number of markers come to this.

- `markers`, `rowsBelow`, `ignoredLines`: the lines of a file by what they are, each
  with its number;
- `recordAt`, `sectionAt`: what is read from a row and from a marker with its rows;
- `readSections_eq`: the sections of a file are those at its markers;
- `read_eq_sections`, `read_layout`: the document of a file, and what is reported about
  its lines.
-/

namespace MetadataBlock.Table

/-! ## Lines -/

/-- The marker lines with their numbers, counted from 1. -/
def markers (lines : List Text) : List (Text × Nat) :=
  (lines.zipIdx 1).filter fun line => isMarkerLine line.1

/-- The lines below a line number, up to the next marker, that are not blank. -/
def rowsBelow (lines : List Text) (number : Nat) : List (Text × Nat) :=
  (((lines.drop number).takeWhile fun line => !isMarkerLine line).zipIdx (number + 1)).filter
    fun line => !Text.isAllBlank line.1

/-- The lines above the first marker that are not blank. -/
def ignoredLines (lines : List Text) : List (Text × Nat) :=
  ((lines.takeWhile fun line => !isMarkerLine line).zipIdx 1).filter
    fun line => !Text.isAllBlank line.1

/-- The warning about ignored lines, if there are any: how many, and where the first is. -/
def ignoredWarning : List (Text × Nat) → List Violation
  | [] => []
  | (first, number) :: more =>
    [{ severity := .warning
       origin := .reader .tabularLayout
       message := Text.ofNat ((first, number) :: more).length
         ++ " line(s) before the first section marker were ignored."
       line := some number }]

/-! ## Records and sections -/

/-- The record of a row: every header with the scalar of the cell in its column, a
missing cell reading as empty. The leading cell, in column 0, is not read. -/
def recordAt (headers : List Text) (row : Text × Nat) : Mapping :=
  let position : Position := ⟨row.2, none⟩
  ⟨(headers.zipIdx 1).map fun (header, column) =>
      ⟨header, .scalar (Cell.parse ((Row.read row.1).cells.getD column [])) (some position), none⟩,
    some position⟩

/-- The section that a marker line opens. -/
def sectionAt (lines : List Text) (marker : Text × Nat) : Entry :=
  let m := parseMarkerLine marker.1
  let position : Position := ⟨marker.2, none⟩
  ⟨m.keyword,
    .list ((rowsBelow lines marker.2).map fun row => (recordAt m.headers row).toNode) (some position),
    some position⟩

/-- The records of a section are those of its rows. -/
theorem records_sectionAt (lines : List Text) (marker : Text × Nat) :
    (sectionAt lines marker).value.records
      = (rowsBelow lines marker.2).map (recordAt (parseMarkerLine marker.1).headers) := by
  have hrecords := records_list
    ((rowsBelow lines marker.2).map (recordAt (parseMarkerLine marker.1).headers))
    (some ⟨marker.2, none⟩)
  rw [List.map_map] at hrecords
  exact hrecords

/-- The warnings about the rows of a section. -/
def rowWarnings (lines : List Text) (marker : Text × Nat) : List Violation :=
  (rowsBelow lines marker.2).flatMap fun row =>
    (readRow (parseMarkerLine marker.1) row.2 row.1).violations

/-! ## Reading rows -/

/-- A row is read cell by cell along its headers; this says the same by columns. -/
theorem rowEntries_eq (position : Position) (cells : List Text) (headers : List Text) (k : Nat) :
    rowEntries position headers (cells.drop k)
      = (headers.zipIdx k).map fun (header, column) =>
          ⟨header, .scalar (Cell.parse (cells.getD column [])) (some position), none⟩ := by
  induction headers generalizing k with
  | nil => rfl
  | cons header headers ih =>
    have hcell : (cells.drop k).headD [] = cells.getD k [] := by
      rw [List.headD_eq_head?_getD, List.head?_drop, List.getD_eq_getElem?_getD]
    rw [rowEntries, hcell, List.tail_drop, ih (k + 1)]
    rfl

/-- The record of a row has the cell in each column, the leading one left out. -/
theorem record_readRow (m : Marker) (row : Text × Nat) :
    (readRow m row.2 row.1).record = recordAt m.headers row := by
  have hentries := rowEntries_eq ⟨row.2, none⟩ (Row.read row.1).cells m.headers 1
  rw [List.drop_one] at hentries
  rw [readRow, recordAt, hentries]

/-- What is reported about a row stands at its line. -/
theorem violations_readRow (m : Marker) (line : Nat) (row : Text) :
    ∀ v ∈ (readRow m line row).violations,
      v.origin = .reader .tabularLayout ∧ v.line = some line := by
  intro v hv
  rcases List.mem_append.mp hv with hfault | hdropped
  · obtain ⟨f, -, rfl⟩ := List.mem_map.mp hfault
    exact ⟨rfl, rfl⟩
  · rw [droppedCells] at hdropped
    split at hdropped
    · cases hdropped
    · rw [List.mem_singleton.mp hdropped]
      exact ⟨rfl, rfl⟩

/-- The rows that are not blank are read, each at its own line. Blank rows count as lines. -/
theorem readRows_eq (m : Marker) (rows : List Text) (line : Nat) :
    readRows m line rows
      = ((rows.zipIdx line).filter fun row => !Text.isAllBlank row.1).map
          fun row => readRow m row.2 row.1 := by
  induction rows generalizing line with
  | nil => rfl
  | cons row rows ih =>
    rw [readRows, ih (line + 1), List.zipIdx_cons]
    by_cases hblank : Text.isAllBlank row = true
    · rw [if_pos hblank, List.filter_cons_of_neg (by simp [hblank])]
    · rw [if_neg hblank, List.filter_cons_of_pos (by simp [hblank]), List.map_cons]

/-! ## Reading sections -/

theorem filter_isMarkerLine_eq_nil {lines : List Text}
    (h : ∀ line ∈ lines, isMarkerLine line = false) (number : Nat) :
    (lines.zipIdx number).filter (fun line => isMarkerLine line.1) = [] := by
  rw [List.filter_eq_nil_iff]
  intro line hline
  rw [h line.1 (List.fst_mem_of_mem_zipIdx hline)]
  exact Bool.false_ne_true

section

variable {before rows : List Text} {marker : Text} {chunks : List (List Text)}

/-- The markers of a chunk and of the lines behind it. -/
theorem filter_isMarkerLine_chunk (hmarker : isMarkerLine marker = true)
    (hrows : ∀ row ∈ rows, isMarkerLine row = false) (number : Nat) :
    ((marker :: rows ++ chunks.flatten).zipIdx (number + 1)).filter (fun line => isMarkerLine line.1)
      = (marker, number + 1) :: (chunks.flatten.zipIdx
          (number + (marker :: rows).length + 1)).filter fun line => isMarkerLine line.1 := by
  have hplace : number + 1 + 1 + rows.length = number + (marker :: rows).length + 1 := by
    rw [List.length_cons]
    omega
  have hfirst : isMarkerLine (marker, number + 1).1 = true := hmarker
  rw [List.cons_append, List.zipIdx_cons, List.filter_cons, if_pos hfirst, List.zipIdx_append,
    List.filter_append, filter_isMarkerLine_eq_nil hrows, List.nil_append, hplace]

/-- The rows below the marker of a chunk are those of the chunk. -/
theorem rowsBelow_chunk (hrows : ∀ row ∈ rows, isMarkerLine row = false)
    (hchunks : ∀ chunk ∈ chunks, IsChunk chunk) :
    rowsBelow (before ++ (marker :: rows ++ chunks.flatten)) (before.length + 1)
      = (rows.zipIdx (before.length + 2)).filter fun row => !Text.isAllBlank row.1 := by
  rw [rowsBelow, List.drop_length_add_append, List.cons_append, List.drop_succ_cons,
    List.drop_zero, takeWhile_chunks hrows hchunks]

/-- A chunk of a file is read as the section at its marker. What stands in front of the chunk
only gives its number, and what stands behind it is not read. -/
theorem readSection_chunk (hrows : ∀ row ∈ rows, isMarkerLine row = false)
    (hchunks : ∀ chunk ∈ chunks, IsChunk chunk) :
    readSection ⟨before.length, marker :: rows⟩
      = ⟨sectionAt (before ++ (marker :: rows ++ chunks.flatten)) (marker, before.length + 1),
        rowWarnings (before ++ (marker :: rows ++ chunks.flatten)) (marker, before.length + 1)⟩ := by
  have hread := readRows_eq (parseMarkerLine marker) rows (before.length + 2)
  rw [← rowsBelow_chunk hrows hchunks] at hread
  have hrecords : (readRows (parseMarkerLine marker) (before.length + 2) rows).map
        (fun read => read.record.toNode)
      = (rowsBelow (before ++ (marker :: rows ++ chunks.flatten)) (before.length + 1)).map
          fun row => (recordAt (parseMarkerLine marker).headers row).toNode := by
    rw [hread, List.map_map]
    exact List.map_congr_left fun row _ => congrArg Mapping.toNode (record_readRow _ row)
  have hwarnings : (readRows (parseMarkerLine marker) (before.length + 2) rows).flatMap
        (fun read => read.violations)
      = rowWarnings (before ++ (marker :: rows ++ chunks.flatten)) (marker, before.length + 1) := by
    rw [hread, List.flatMap_map]
    rfl
  rw [readSection]
  simp only [List.headD_cons, List.tail_cons, hrecords, hwarnings]
  rfl

end

/-- The chunks of a file are read as the sections at its markers. The induction moves one chunk
after the other to the lines in front. -/
theorem readSections_placed (before : List Text) {chunks : List (List Text)}
    (hchunks : ∀ chunk ∈ chunks, IsChunk chunk) :
    (placed before.length chunks).map readSection
      = ((chunks.flatten.zipIdx (before.length + 1)).filter fun line => isMarkerLine line.1).map
          fun marker => ⟨sectionAt (before ++ chunks.flatten) marker,
            rowWarnings (before ++ chunks.flatten) marker⟩ := by
  induction chunks generalizing before with
  | nil => rfl
  | cons chunk chunks ih =>
    obtain ⟨hchunk, hrest⟩ := List.forall_mem_cons.mp hchunks
    cases chunk with
    | nil => exact hchunk.elim
    | cons marker rows =>
      -- the first chunk moves in front of the others
      have hothers := ih (before ++ marker :: rows) hrest
      rw [List.length_append, List.append_assoc] at hothers
      rw [placed, List.map_cons, readSection_chunk hchunk.2 hrest, hothers, List.flatten_cons,
        filter_isMarkerLine_chunk hchunk.1 hchunk.2, List.map_cons]

/-- The sections of a file are those at its markers, however the lines were split. -/
theorem readSections_eq (lines : List Text) :
    (looseSections lines).map readSection
      = (markers lines).map fun marker => ⟨sectionAt lines marker, rowWarnings lines marker⟩ := by
  obtain ⟨before, chunks, rfl, hbefore, hchunks⟩ := exists_chunks lines
  rw [looseSections_chunks hbefore hchunks, readSections_placed before hchunks, markers,
    List.zipIdx_append, List.filter_append, filter_isMarkerLine_eq_nil hbefore, List.nil_append,
    Nat.add_comm 1]

/-! ## Ignored lines -/

/-- The first line that satisfies a condition, found by its place or by its number. The reader
does the one, and the statement about ignored lines the other. -/
theorem findIdx?_eq_head? (p : Text → Bool) (lines : List Text) (number : Nat) :
    (lines.findIdx? p).map (· + number)
      = ((lines.zipIdx number).filter fun line => p line.1).head?.map (·.2) := by
  induction lines generalizing number with
  | nil => rfl
  | cons line lines ih =>
    rw [List.findIdx?_cons, List.zipIdx_cons, List.filter_cons]
    by_cases hp : p line = true
    · simp [hp]
    · rw [if_neg hp, if_neg hp, ← ih (number + 1), Option.map_map]
      refine congrArg (Option.map · _) (funext fun i => ?_)
      simp only [Function.comp_apply]
      omega

/-- The warning about ignored lines counts those that are not blank and stands at the first of
them. -/
theorem preambleViolations_eq (preamble : List Text) :
    preambleViolations preamble
      = ignoredWarning ((preamble.zipIdx 1).filter fun line => !Text.isAllBlank line.1) := by
  have hfirst := findIdx?_eq_head? (fun line => !Text.isAllBlank line) preamble 1
  have hcount : preamble.filter (fun line => !Text.isAllBlank line)
      = ((preamble.zipIdx 1).filter fun line => !Text.isAllBlank line.1).map (·.1) := by
    conv_lhs => rw [← List.zipIdx_map_fst 1 preamble, List.filter_map]
    rfl
  rw [preambleViolations, hcount]
  cases hlines : (preamble.zipIdx 1).filter fun line => !Text.isAllBlank line.1 with
  | nil =>
    rw [hlines, List.head?_nil, Option.map_none, Option.map_eq_none_iff] at hfirst
    rw [hfirst]
    rfl
  | cons line more =>
    obtain ⟨first, number⟩ := line
    rw [hlines, List.head?_cons, Option.map_some, Option.map_eq_some_iff] at hfirst
    obtain ⟨i, hi, rfl⟩ := hfirst
    rw [hi]
    simp only [List.length_map]
    rfl

/-! ## Files -/

/-- The document of a file has its sections, and what is reported is about the number
of markers, about ignored lines and about rows. -/
theorem read_eq_sections (source : Text) :
    read source =
      { document :=
          some ⟨(markers (splitLines source)).map (sectionAt (splitLines source)), some ⟨1, none⟩⟩
        violations :=
          markerViolations (splitLines source) ++ ignoredWarning (ignoredLines (splitLines source))
            ++ (markers (splitLines source)).flatMap (rowWarnings (splitLines source)) } := by
  have hreads := readSections_eq (splitLines source)
  have hentries := congrArg (List.map (·.entry)) hreads
  have hwarnings := congrArg (List.flatMap (·.violations)) hreads
  simp only [List.map_map, List.flatMap_map] at hentries hwarnings
  rw [read_eq, documentRead, preamble_eq, preambleViolations_eq, ← ignoredLines]
  exact congrArg₂ (fun entries warnings => ({
    document := some ⟨entries, some ⟨1, none⟩⟩
    violations := markerViolations (splitLines source)
      ++ ignoredWarning (ignoredLines (splitLines source)) ++ warnings } : Reading))
    hentries hwarnings

/-- What is said about the number of sections bears the name of that check. -/
theorem origin_of_mem_markerViolations {lines : List Text} :
    ∀ v ∈ markerViolations lines, v.origin = .reader .identifyBreakPoints := by
  rw [markerViolations]
  split
  · exact List.forall_mem_nil _
  · exact List.forall_mem_singleton.mpr rfl

theorem origin_of_mem_ignoredWarning {ignored : List (Text × Nat)} :
    ∀ v ∈ ignoredWarning ignored, v.origin = .reader .tabularLayout := by
  cases ignored with
  | nil => exact List.forall_mem_nil _
  | cons first more => exact List.forall_mem_singleton.mpr rfl

/-- Every warning about the rows of a section stands at one of its rows. -/
theorem exists_row_of_mem_rowWarnings {lines : List Text} {marker : Text × Nat} :
    ∀ v ∈ rowWarnings lines marker, v.origin = .reader .tabularLayout
      ∧ ∃ row ∈ rowsBelow lines marker.2, v.line = some row.2 := by
  intro v hv
  obtain ⟨row, hrow, hmem⟩ := List.mem_flatMap.mp hv
  obtain ⟨horigin, hline⟩ := violations_readRow _ _ _ v hmem
  exact ⟨horigin, row, hrow, hline⟩

/-- What reading a table reports is a finding of the reader, of one of its two checks. -/
theorem origin_of_mem_read {source : Text} :
    ∀ v ∈ (read source).violations, ∃ check, v.origin = .reader check := by
  intro v hv
  rw [read_eq_sections, List.mem_append, List.mem_append] at hv
  rcases hv with (hv | hv) | hv
  · exact ⟨_, origin_of_mem_markerViolations v hv⟩
  · exact ⟨_, origin_of_mem_ignoredWarning v hv⟩
  · obtain ⟨marker, -, hmem⟩ := List.mem_flatMap.mp hv
    exact ⟨_, (exists_row_of_mem_rowWarnings v hmem).1⟩

/-- A file has one section for every marker line, with one record for every line below
the marker that is not blank. Lines above the first marker are not read, and a single
warning counts those that are not blank, at the first of them; all other warnings about
the layout stand at rows. -/
theorem read_layout (source : Text) :
    (read source).document
        = some ⟨(markers (splitLines source)).map (sectionAt (splitLines source)), some ⟨1, none⟩⟩
      ∧ ∃ atRows,
        (read source).violations.filter (fun v => v.origin = .reader .tabularLayout)
            = ignoredWarning (ignoredLines (splitLines source)) ++ atRows
          ∧ ∀ v ∈ atRows, ∃ marker ∈ markers (splitLines source),
              ∃ row ∈ rowsBelow (splitLines source) marker.2, v.line = some row.2 := by
  have hmarkers : (markerViolations (splitLines source)).filter
      (fun v => v.origin = .reader .tabularLayout) = [] := by
    rw [List.filter_eq_nil_iff]
    intro v hv
    rw [origin_of_mem_markerViolations v hv]
    decide
  have hignored : (ignoredWarning (ignoredLines (splitLines source))).filter
        (fun v => v.origin = .reader .tabularLayout)
      = ignoredWarning (ignoredLines (splitLines source)) := by
    rw [List.filter_eq_self]
    exact fun v hv => decide_eq_true (origin_of_mem_ignoredWarning v hv)
  have hplaces : ∀ v ∈ (markers (splitLines source)).flatMap (rowWarnings (splitLines source)),
      v.origin = .reader .tabularLayout ∧ ∃ marker ∈ markers (splitLines source),
        ∃ row ∈ rowsBelow (splitLines source) marker.2, v.line = some row.2 := by
    intro v hv
    obtain ⟨marker, hmarker, hmem⟩ := List.mem_flatMap.mp hv
    obtain ⟨horigin, hrow⟩ := exists_row_of_mem_rowWarnings v hmem
    exact ⟨horigin, marker, hmarker, hrow⟩
  have hrows := List.filter_eq_self (p := fun v => decide (v.origin = .reader .tabularLayout)).mpr
    fun v hv => decide_eq_true (hplaces v hv).1
  -- of the three kinds of findings the first is about another check
  rw [read_eq_sections]
  refine ⟨rfl, (markers (splitLines source)).flatMap (rowWarnings (splitLines source)), ?_,
    fun v hv => (hplaces v hv).2⟩
  rw [List.filter_append, List.filter_append, hmarkers, hignored, hrows, List.nil_append]

end MetadataBlock.Table
