import MetadataBlock.Proofs.Numeral
import MetadataBlock.Proofs.RowQuoting
import MetadataBlock.Proofs.TableLayout

/-!
# Malformed lines are reported, markers apart

From the first marker on, every line of a file is read as a row of cells. What is wrong with
the quotes of a row is reported at its line, fault by fault. The faults of a marker line are
not: its cells are taken as they were read.

- `linesRead`, `dataRows`, `flatMap_rowsBelow`: the lines that are read, and the rows among
  them, section by section or as they follow each other;
- `isMalformedRow`, `filter_isMalformedRow_read`: all warnings about malformed rows of a file;
- `malformedAt`, `malformedAt_eq`: the warnings at a line;
- `ReportsFaults`, `reportsFaults_iff`: a file with every malformed line reported;
- `malformedMarker_unreported`: a marker line whose fault is not.
-/

namespace MetadataBlock.Table

/-! ## The lines that are read -/

/-- The lines from the first marker on with their numbers, counted from 1. -/
def linesRead (lines : List Text) : List (Text × Nat) :=
  (lines.zipIdx 1).dropWhile fun line => !isMarkerLine line.1

/-- Those of them that are neither markers nor blank. -/
def dataRows (lines : List Text) : List (Text × Nat) :=
  (linesRead lines).filter fun line => !isMarkerLine line.1 && !Text.isAllBlank line.1

/-- The lines that are read begin with the first chunk, as nothing in front of it is a marker
and a chunk begins with one. -/
theorem linesRead_chunks {before : List Text} {chunks : List (List Text)}
    (hbefore : ∀ line ∈ before, isMarkerLine line = false) (hchunks : ∀ chunk ∈ chunks, IsChunk chunk) :
    linesRead (before ++ chunks.flatten) = chunks.flatten.zipIdx (before.length + 1) := by
  have hskipped : ∀ line ∈ before.zipIdx 1, (!isMarkerLine line.1) = true := by
    intro line hline
    rw [hbefore line.1 (List.fst_mem_of_mem_zipIdx hline)]
    rfl
  rw [linesRead, List.zipIdx_append, List.dropWhile_append_of_pos hskipped, Nat.add_comm 1]
  cases chunks with
  | nil => rfl
  | cons chunk chunks =>
    have hchunk := hchunks chunk List.mem_cons_self
    cases chunk with
    | nil => exact hchunk.elim
    | cons marker rows =>
      rw [List.flatten_cons, List.cons_append, List.zipIdx_cons,
        List.dropWhile_cons_of_neg (by simp [hchunk.1])]

/-- All markers are among the lines that are read. -/
theorem markers_eq_filter (lines : List Text) :
    markers lines = (linesRead lines).filter fun line => isMarkerLine line.1 := by
  obtain ⟨before, chunks, rfl, hbefore, hchunks⟩ := exists_chunks lines
  rw [linesRead_chunks hbefore hchunks, markers, List.zipIdx_append, List.filter_append,
    filter_isMarkerLine_eq_nil hbefore, List.nil_append, Nat.add_comm 1]

/-- The rows of all chunks are the lines of the chunks that are neither markers nor blank. The
induction moves one chunk after the other to the lines in front, which keeps the numbers of the
lines. -/
theorem flatMap_rowsBelow_chunks (before : List Text) {chunks : List (List Text)}
    (hchunks : ∀ chunk ∈ chunks, IsChunk chunk) :
    ((chunks.flatten.zipIdx (before.length + 1)).filter fun line => isMarkerLine line.1).flatMap
        (fun marker => rowsBelow (before ++ chunks.flatten) marker.2)
      = (chunks.flatten.zipIdx (before.length + 1)).filter
          fun line => !isMarkerLine line.1 && !Text.isAllBlank line.1 := by
  induction chunks generalizing before with
  | nil => rfl
  | cons chunk chunks ih =>
    obtain ⟨hchunk, hrest⟩ := List.forall_mem_cons.mp hchunks
    cases chunk with
    | nil => exact hchunk.elim
    | cons marker rows =>
      -- the first chunk moves in front of the others
      have hothers := ih (before ++ marker :: rows) hrest
      rw [List.length_append, List.append_assoc] at hothers
      rw [List.flatten_cons, filter_isMarkerLine_chunk hchunk.1 hchunk.2, List.flatMap_cons,
        rowsBelow_chunk hchunk.2 hrest, hothers, List.cons_append, List.zipIdx_cons,
        List.filter_cons_of_neg (by simp [hchunk.1]), List.zipIdx_append, List.filter_append]
      have hplace : before.length + (marker :: rows).length + 1
          = before.length + 1 + 1 + rows.length := by
        rw [List.length_cons]
        omega
      rw [hplace]
      refine congrArg (· ++ _) (List.filter_congr fun row hrow => ?_)
      rw [hchunk.2 row.1 (List.fst_mem_of_mem_zipIdx hrow), Bool.not_false, Bool.true_and]

/-- The rows of the sections, section by section, are the rows of the file. -/
theorem flatMap_rowsBelow (lines : List Text) :
    (markers lines).flatMap (fun marker => rowsBelow lines marker.2) = dataRows lines := by
  obtain ⟨before, chunks, rfl, hbefore, hchunks⟩ := exists_chunks lines
  rw [dataRows, markers_eq_filter, linesRead_chunks hbefore hchunks]
  exact flatMap_rowsBelow_chunks before hchunks

/-! ## Warnings about malformed rows -/

/-- Is it a warning about the layout that tells of a malformed row? -/
def isMalformedRow (v : Violation) : Bool :=
  v.severity == .warning && v.origin == .reader .tabularLayout
    && List.isPrefixOf ("Malformed row" : Text) v.message

/-- The warnings about what is wrong with a line. -/
def faultWarnings (line : Text × Nat) : List Violation :=
  (Row.read line.1).faults.map (malformedRow ⟨line.2, none⟩)

theorem isMalformedRow_malformedRow (position : Position) (f : Row.Fault) :
    isMalformedRow (malformedRow position f) = true := by
  cases f <;> rfl

/-- A message that begins with another letter is about something else. -/
theorem isMalformedRow_of_head? {v : Violation} {u : UInt16} (hhead : v.message.head? = some u)
    (hu : u ≠ Text.unit 'M') : isMalformedRow v = false := by
  obtain ⟨rest, hmessage⟩ : ∃ rest, v.message = u :: rest := List.head?_eq_some_iff.mp hhead
  have hletter : ("Malformed row" : Text) = Text.unit 'M' :: "alformed row" := by decide
  have hprefix : List.isPrefixOf ("Malformed row" : Text) v.message = false := by
    rw [hmessage, hletter, List.isPrefixOf, beq_eq_false_iff_ne.mpr hu.symm, Bool.false_and]
  rw [isMalformedRow, hprefix, Bool.and_false]

theorem isMalformedRow_of_mem_droppedCells {position : Position} {m : Marker} {cells : List Text} :
    ∀ v ∈ droppedCells position m cells, isMalformedRow v = false := by
  rw [droppedCells]
  split
  · exact List.forall_mem_nil _
  · exact List.forall_mem_singleton.mpr (isMalformedRow_of_head? (u := Text.unit 'R') rfl (by decide))

/-- A warning about lines in front of the first marker begins with their number. -/
theorem isMalformedRow_of_mem_ignoredWarning {ignored : List (Text × Nat)} :
    ∀ v ∈ ignoredWarning ignored, isMalformedRow v = false := by
  cases ignored with
  | nil => exact List.forall_mem_nil _
  | cons first more =>
    -- the message begins with a number
    obtain ⟨u, digits, hdigits⟩ :=
      List.exists_cons_of_ne_nil (Text.ofNat_ne_nil (first :: more).length)
    have hdigit : Text.isDigit u = true := Text.ofNat_forall _ u (hdigits ▸ List.mem_cons_self)
    refine List.forall_mem_singleton.mpr (isMalformedRow_of_head? (u := u) ?_ ?_)
    · show (Text.ofNat (first :: more).length ++ _).head? = some u
      rw [hdigits]
      rfl
    · rintro rfl
      exact absurd hdigit (by decide)

/-- What is said about the number of sections is the finding of another check. -/
theorem isMalformedRow_of_mem_markerViolations {lines : List Text} :
    ∀ v ∈ markerViolations lines, isMalformedRow v = false := by
  intro v hv
  rw [isMalformedRow, origin_of_mem_markerViolations v hv]
  simp

theorem filter_isMalformedRow_eq_nil {vs : List Violation}
    (h : ∀ v ∈ vs, isMalformedRow v = false) : vs.filter isMalformedRow = [] := by
  rw [List.filter_eq_nil_iff]
  intro v hv
  rw [h v hv]
  exact Bool.false_ne_true

/-- Of what is reported about a row, the faults are about a malformed row. -/
theorem filter_isMalformedRow_readRow (m : Marker) (row : Text × Nat) :
    (readRow m row.2 row.1).violations.filter isMalformedRow = faultWarnings row := by
  have hfaults : (faultWarnings row).filter isMalformedRow = faultWarnings row := by
    rw [List.filter_eq_self]
    intro v hv
    obtain ⟨f, -, rfl⟩ := List.mem_map.mp hv
    exact isMalformedRow_malformedRow _ f
  show (faultWarnings row ++ droppedCells _ m _).filter isMalformedRow = _
  rw [List.filter_append, hfaults,
    filter_isMalformedRow_eq_nil isMalformedRow_of_mem_droppedCells, List.append_nil]

/-- All warnings about malformed rows of a file, row by row. Of all that is reported the other
three kinds of findings drop out. -/
theorem filter_isMalformedRow_read (source : Text) :
    (read source).violations.filter isMalformedRow
      = (dataRows (splitLines source)).flatMap faultWarnings := by
  rw [read_eq_sections, List.filter_append, List.filter_append,
    filter_isMalformedRow_eq_nil isMalformedRow_of_mem_markerViolations,
    filter_isMalformedRow_eq_nil isMalformedRow_of_mem_ignoredWarning, List.nil_append,
    List.nil_append, List.filter_flatMap, ← flatMap_rowsBelow, List.flatMap_assoc]
  refine List.flatMap_congr fun marker _ => ?_
  rw [rowWarnings, List.filter_flatMap]
  exact List.flatMap_congr fun row _ => filter_isMalformedRow_readRow _ row

/-! ## Warnings at a line -/

/-- Blank lines have nothing wrong with their quotes, as they have none. -/
theorem faults_read_of_isAllBlank {line : Text} (h : Text.isAllBlank line = true) :
    (Row.read line).faults = [] := by
  refine Row.faults_read_of_not_mem fun u hu => ?_
  rintro rfl
  exact absurd (List.all_eq_true.mp h _ hu) (by decide)

/-- The warnings about a malformed row that stand at a line. -/
def malformedAt (source : Text) (number : Nat) : List Violation :=
  (read source).violations.filter fun v => isMalformedRow v && v.line == some number

theorem linesRead_sublist (lines : List Text) : (linesRead lines).Sublist (lines.zipIdx 1) :=
  List.dropWhile_sublist _

/-- No number stands for two lines. -/
theorem nodup_numbers (lines : List Text) : ((linesRead lines).map (·.2)).Nodup := by
  refine List.Nodup.sublist ((linesRead_sublist lines).map _) ?_
  rw [List.zipIdx_map_snd]
  exact List.nodup_range'

/-- Among the warnings about some lines, those at the number of a line are about this line,
since no other line has its number. -/
theorem filter_line_flatMap {lines : List (Text × Nat)} (hnumbers : (lines.map (·.2)).Nodup)
    {line : Text × Nat} (hline : line ∈ lines) {report : Text × Nat → List Violation}
    (hreport : ∀ other, ∀ v ∈ report other, v.line = some other.2) :
    (lines.flatMap report).filter (fun v => v.line == some line.2) = report line := by
  obtain ⟨before, after, rfl⟩ := List.append_of_mem hline
  rw [List.map_append, List.map_cons, List.nodup_append, List.nodup_cons] at hnumbers
  obtain ⟨-, ⟨hafter, -⟩, hbefore⟩ := hnumbers
  have hown : (report line).filter (fun v => v.line == some line.2) = report line := by
    rw [List.filter_eq_self]
    intro v hv
    rw [hreport line v hv]
    exact beq_self_eq_true _
  have hother : ∀ other : Text × Nat, other.2 ≠ line.2 →
      (report other).filter (fun v => v.line == some line.2) = [] := by
    intro other hne
    rw [List.filter_eq_nil_iff]
    intro v hv
    rw [hreport other v hv]
    simpa using hne
  have hothers : ∀ others : List (Text × Nat), (∀ other ∈ others, other.2 ≠ line.2) →
      others.flatMap (fun other => (report other).filter (fun v => v.line == some line.2)) = [] :=
    fun others hne => List.flatMap_eq_nil_iff.mpr fun other hmem => hother other (hne other hmem)
  have hfirst := hothers before fun other hmem =>
    hbefore _ (List.mem_map_of_mem hmem) _ List.mem_cons_self
  have hlast := hothers after fun other hmem heq => hafter (heq ▸ List.mem_map_of_mem hmem)
  -- the lines around this one have other numbers
  rw [List.filter_flatMap, List.flatMap_append, List.flatMap_cons, hfirst, hown, hlast,
    List.nil_append, List.append_nil]

/-- What is reported about a line that is read: its faults, unless it is a marker. -/
def lineWarnings (line : Text × Nat) : List Violation :=
  if isMarkerLine line.1 then [] else faultWarnings line

theorem line_of_mem_lineWarnings (line : Text × Nat) :
    ∀ v ∈ lineWarnings line, v.line = some line.2 := by
  rw [lineWarnings]
  split
  · exact List.forall_mem_nil _
  · exact List.forall_mem_map.mpr fun _ _ => rfl

/-- Blank lines add nothing, so that the rows of a file report what all lines do. -/
theorem flatMap_dataRows (lines : List Text) :
    (dataRows lines).flatMap faultWarnings = (linesRead lines).flatMap lineWarnings := by
  rw [dataRows]
  induction linesRead lines with
  | nil => rfl
  | cons line rest ih =>
    rw [List.flatMap_cons, ← ih, List.filter_cons]
    cases hmarker : isMarkerLine line.1 with
    | true => simp [lineWarnings, hmarker]
    | false =>
      cases hblank : Text.isAllBlank line.1 with
      | true => simp [lineWarnings, hmarker, faultWarnings, faults_read_of_isAllBlank hblank]
      | false => simp [lineWarnings, hmarker]

/-- At a line that is read stands what is reported about it. The warnings are taken together
for the whole file and then told apart by their numbers. -/
theorem malformedAt_eq {source : Text} {line : Text × Nat}
    (hline : line ∈ linesRead (splitLines source)) :
    malformedAt source line.2 = lineWarnings line := by
  have hfilter : malformedAt source line.2
      = ((read source).violations.filter isMalformedRow).filter fun v => v.line == some line.2 := by
    rw [malformedAt, List.filter_filter]
    exact List.filter_congr fun v _ => Bool.and_comm _ _
  rw [hfilter, filter_isMalformedRow_read, flatMap_dataRows]
  exact filter_line_flatMap (nodup_numbers _) hline line_of_mem_lineWarnings

/-! ## Files with every malformed line reported -/

/-- Every line that is read has as many warnings about a malformed row at its number as it has
faults, so a blank line has none, and there are no such warnings elsewhere. -/
structure ReportsFaults (source : Text) : Prop where
  each : ∀ line ∈ linesRead (splitLines source),
    (malformedAt source line.2).length = (Row.read line.1).faults.length
  blank : ∀ line ∈ linesRead (splitLines source), Text.isAllBlank line.1 = true →
    malformedAt source line.2 = []
  only : ∀ v ∈ (read source).violations, isMalformedRow v = true →
    ∃ line ∈ linesRead (splitLines source), v.line = some line.2 ∧ (Row.read line.1).faults ≠ []

theorem mem_linesRead_of_mem_markers {lines : List Text} {marker : Text × Nat}
    (h : marker ∈ markers lines) : marker ∈ linesRead lines ∧ isMarkerLine marker.1 = true := by
  rw [markers_eq_filter] at h
  exact List.mem_filter.mp h

/-- What is said of all lines holds of them fault by fault if no marker has a fault. A marker
has nothing reported, which is right if nothing is wrong with it. -/
theorem lineWarnings_eq_faultWarnings {lines : List Text}
    (h : ∀ marker ∈ markers lines, (Row.read marker.1).faults = []) {line : Text × Nat}
    (hline : line ∈ linesRead lines) : lineWarnings line = faultWarnings line := by
  rw [lineWarnings]
  split
  · next hmarker =>
    have hmem : line ∈ markers lines := by
      rw [markers_eq_filter]
      exact List.mem_filter.mpr ⟨hline, hmarker⟩
    rw [faultWarnings, h line hmem, List.map_nil]
  · rfl

/-- A file whose markers have no faults reports those of all its lines, and nothing at a line
without one. -/
theorem reportsFaults_of_markers {source : Text}
    (h : ∀ marker ∈ markers (splitLines source), (Row.read marker.1).faults = []) :
    ReportsFaults source := by
  have hat : ∀ line ∈ linesRead (splitLines source), malformedAt source line.2 = faultWarnings line :=
    fun line hline => (malformedAt_eq hline).trans (lineWarnings_eq_faultWarnings h hline)
  refine ⟨fun line hline => ?_, fun line hline hblank => ?_, fun v hv hmalformed => ?_⟩
  · rw [hat line hline, faultWarnings, List.length_map]
  · rw [hat line hline, faultWarnings, faults_read_of_isAllBlank hblank, List.map_nil]
  · have hmem := List.mem_filter.mpr ⟨hv, hmalformed⟩
    rw [filter_isMalformedRow_read, List.mem_flatMap] at hmem
    obtain ⟨row, hrow, hfault⟩ := hmem
    obtain ⟨f, hf, rfl⟩ := List.mem_map.mp hfault
    exact ⟨row, (List.mem_filter.mp hrow).1, rfl, List.ne_nil_of_mem hf⟩

/-- A file reports the faults of all its lines exactly if no marker line has one. In any file
the lines below the first marker, the markers apart, are reported fault by fault. -/
theorem reportsFaults_iff (source : Text) :
    (ReportsFaults source
        ↔ ∀ marker ∈ markers (splitLines source), (Row.read marker.1).faults = [])
      ∧ ∀ line ∈ linesRead (splitLines source), malformedAt source line.2
        = if isMarkerLine line.1 then []
          else (Row.read line.1).faults.map (malformedRow ⟨line.2, none⟩) := by
  refine ⟨⟨fun hreports marker hmarker => ?_, reportsFaults_of_markers⟩,
    fun line hline => malformedAt_eq hline⟩
  obtain ⟨hline, hmark⟩ := mem_linesRead_of_mem_markers hmarker
  have hlength := hreports.each marker hline
  rw [malformedAt_eq hline, lineWarnings, if_pos hmark] at hlength
  exact List.length_eq_zero_iff.mp hlength.symm

/-- A table with a quote in a row that is not closed. -/
def openCell : Text :=
  "#metadataBlock\tname\n\t\"a\n#datasetField"

/-- The row is reported, and so is the file, as no marker line has a fault. -/
theorem reportsFaults_openCell :
    (∀ marker ∈ markers (splitLines openCell), (Row.read marker.1).faults = [])
      ∧ ReportsFaults openCell
      ∧ (("\t\"a" : Text), 2) ∈ linesRead (splitLines openCell)
      ∧ malformedAt openCell 2 = [malformedRow ⟨2, none⟩ .unterminated] := by
  obtain ⟨hreports, hlines⟩ := reportsFaults_iff openCell
  have hmarkers : ∀ marker ∈ markers (splitLines openCell), (Row.read marker.1).faults = [] := by
    decide +kernel
  have hline : (("\t\"a" : Text), 2) ∈ linesRead (splitLines openCell) := by decide +kernel
  refine ⟨hmarkers, hreports.mpr hmarkers, hline, (hlines _ hline).trans ?_⟩
  decide +kernel

/-- A table with a quote in its first marker line that is not closed. -/
def openHeader : Text :=
  "#metadataBlock\tname\t\"displayName\n\ta\tA\n#datasetField"

/-- The marker line is one of the lines that are read, but its fault is not reported. -/
theorem malformedMarker_unreported :
    (("#metadataBlock\tname\t\"displayName" : Text), 1) ∈ linesRead (splitLines openHeader)
      ∧ (Row.read "#metadataBlock\tname\t\"displayName").faults = [.unterminated]
      ∧ (read openHeader).violations = []
      ∧ ¬ ReportsFaults openHeader := by
  have hline : (("#metadataBlock\tname\t\"displayName" : Text), 1)
      ∈ linesRead (splitLines openHeader) := by decide +kernel
  have hfaults : (Row.read "#metadataBlock\tname\t\"displayName").faults = [.unterminated] := by
    decide +kernel
  have hnone : (read openHeader).violations = [] := by decide +kernel
  refine ⟨hline, hfaults, hnone, fun hreports => ?_⟩
  have hlength := hreports.each _ hline
  rw [hfaults, malformedAt, hnone] at hlength
  cases hlength

end MetadataBlock.Table
