import MetadataBlock.Lint.Run
import MetadataBlock.Table.Cell
import MetadataBlock.Table.Row

/-!
# Writing tables

The sections of a document stand in canonical order, each with a header row and
one row per record. All rows have the same width: the wanted one, or that of the
widest header row if it is larger.
-/

namespace MetadataBlock.Table

/-- The reason why a document cannot be written: a value that is no scalar. -/
structure NestedValue where
  key : Text
  keyword : Text
  deriving DecidableEq

def NestedValue.message (e : NestedValue) : Text :=
  "Cannot write nested value of key " ++ Text.quoted e.key ++ " in block " ++ Text.quoted e.keyword
    ++ "."

/-- The keys of the records in order of first occurrence. -/
def headersOf (records : List Mapping) : List Text :=
  records.foldl (fun headers r =>
    r.keys.foldl (fun headers key =>
      if headers.contains key then headers else headers ++ [key]) headers) []

/-- The cell of a record below a header; empty if the record lacks the key. -/
def cellOf (keyword : Text) (record : Mapping) (header : Text) : Except NestedValue Text :=
  match record.entry? header with
  | none => .ok []
  | some (.scalar value _) => .ok (Cell.render value)
  | some _ => .error ⟨header, keyword⟩

/-- The header row of a section. -/
def headerRow (s : Section) : List Text :=
  (Text.unit '#' :: s.keyword) :: headersOf s.block.records

/-- The row of a record, with an empty first cell. -/
def recordRow (keyword : Text) (headers : List Text) (record : Mapping) :
    Except NestedValue (List Text) := do
  let cells ← headers.mapM (cellOf keyword record)
  return [] :: cells

/-- The rows of a section, the header row first. -/
def sectionRows (s : Section) : Except NestedValue (List (List Text)) := do
  let records := s.block.records
  let rows ← records.mapM (recordRow s.keyword (headersOf records))
  return headerRow s :: rows

/-- Fill a row up with empty cells. -/
def padRow (width : Nat) (cells : List Text) : List Text :=
  cells ++ List.replicate (width - cells.length) []

/-- The width of all rows. -/
def widthOf (sections : List Section) (wanted : Nat) : Nat :=
  sections.foldl (fun width s => max width (headerRow s).length) wanted

/-- The table of a document: rows of one width. -/
def ofDocument (document : Document) (wanted : Nat) : Except NestedValue (List (List Text)) := do
  let rows ← document.sections.mapM sectionRows
  return rows.flatten.map (padRow (widthOf document.sections wanted))

/-- The text of a document as a table, each row ended by a line feed. -/
def render (document : Document) (wanted : Nat) : Except NestedValue Text := do
  match ← ofDocument document wanted with
  | [] => return []
  | rows => return Row.writeAll rows ++ [Text.lineFeed]

end MetadataBlock.Table
