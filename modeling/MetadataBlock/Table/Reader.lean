import MetadataBlock.Document.Reading
import MetadataBlock.Table.Cell
import MetadataBlock.Table.Row
import MetadataBlock.Table.Sections

/-!
# Reading tabular sources

Each section is a marker line `#keyword` with the headers, followed by rows
whose first cell is empty. Blank rows are skipped. Whatever is dropped on the way
(lines before the first section, cells without a header) is reported.
-/

namespace MetadataBlock.Table

/-- The keyword and the headers of a marker line. -/
structure Marker where
  keyword : Text
  headers : List Text
  deriving DecidableEq

/-- The list without the empty texts at its end. -/
def dropTrailingEmpty (cells : List Text) : List Text :=
  (cells.reverse.dropWhile (·.isEmpty)).reverse

/-- Read a marker line. Empty cells at the end are no headers, and headers are
trimmed. -/
def parseMarkerLine (line : Text) : Marker :=
  let cells := (Row.read line).cells
  ⟨(cells.headD []).drop 1, (dropTrailingEmpty cells.tail).map Text.trim⟩

/-- The warning about a fault in a row. -/
def malformedRow (position : Position) (f : Row.Fault) : Violation :=
  .atPosition .warning (.reader .tabularLayout) ("Malformed row: " ++ f.message ++ ".") position

/-- The warning about cells beyond the headers, if any of them is not empty. -/
def droppedCells (position : Position) (m : Marker) (cells : List Text) : List Violation :=
  match ((cells.drop m.headers.length).filter fun c => !c.isEmpty).length with
  | 0 => []
  | dropped =>
    [.atPosition .warning (.reader .tabularLayout)
      ("Row has " ++ Text.ofNat dropped ++ " value(s) beyond the " ++ Text.ofNat m.headers.length
        ++ " header(s) of " ++ Text.quoted m.keyword ++ "; they were ignored.") position]

/-- The entries of a row: every header with the scalar of its cell, a missing cell
reading as empty. -/
def rowEntries (position : Position) : List Text → List Text → List Entry
  | [], _ => []
  | header :: headers, cells =>
    ⟨header, .scalar (Cell.parse (cells.headD [])) (some position), none⟩
      :: rowEntries position headers cells.tail

/-- A row that was read: its record, and what was found on the way. -/
structure RowRead where
  record : Mapping
  violations : List Violation

/-- Read one row at a line of the file. -/
def readRow (m : Marker) (line : Nat) (row : Text) : RowRead :=
  let position : Position := ⟨line, none⟩
  let parsed := Row.read row
  let cells := parsed.cells.tail
  { record := ⟨rowEntries position m.headers cells, some position⟩
    violations := parsed.faults.map (malformedRow position) ++ droppedCells position m cells }

/-- Read the rows from a line of the file on, skipping blank ones. -/
def readRows (m : Marker) (line : Nat) : List Text → List RowRead
  | [] => []
  | row :: rows =>
    if Text.isAllBlank row then readRows m (line + 1) rows
    else readRow m line row :: readRows m (line + 1) rows

/-- A section that was read. -/
structure SectionRead where
  entry : Entry
  violations : List Violation

/-- Read one section. -/
def readSection (s : SectionSlice) : SectionRead :=
  let m := parseMarkerLine (s.lines.headD [])
  let position : Position := ⟨s.start + 1, none⟩
  let rows := readRows m (s.start + 2) s.lines.tail
  { entry := ⟨m.keyword, .list (rows.map (·.record.toNode)) (some position), some position⟩
    violations := rows.flatMap (·.violations) }

/-- The warning about lines before the first section, if any of them is not blank. -/
def preambleViolations (preamble : List Text) : List Violation :=
  match preamble.findIdx? fun line => !Text.isAllBlank line with
  | none => []
  | some first =>
    let ignored := (preamble.filter fun line => !Text.isAllBlank line).length
    [.atPosition .warning (.reader .tabularLayout)
      (Text.ofNat ignored ++ " line(s) before the first section marker were ignored.")
      (some ⟨first + 1, none⟩)]

/-- Read a tabular source. There is always a document. -/
def readDocument (source : Text) : Document × List Violation :=
  let (split, violations) := splitSections (splitLines source)
  let reads := split.slices.map readSection
  (⟨reads.map (·.entry), some ⟨1, none⟩⟩,
    violations ++ preambleViolations split.preamble ++ reads.flatMap (·.violations))

/-- Read a tabular source. -/
def read (source : Text) : Reading :=
  let (document, violations) := readDocument source
  { document := some document, violations }

end MetadataBlock.Table
