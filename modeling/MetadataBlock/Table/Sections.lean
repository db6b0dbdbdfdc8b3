import MetadataBlock.Lint.Violation

/-!
# The sections of a tabular file

A line that begins with `#` is a marker and opens a section. With two or three
markers the file is split at them; any other number is ambiguous, and the lines
are handed on unchanged together with a warning.

`splitSections` cuts the expected sections out one by one. `looseSections` walks
from marker to marker, however many there are.
-/

namespace MetadataBlock

/-- Consecutive lines that start with a marker line. -/
structure SectionSlice where
  /-- The place of the marker line in the file, counted from 0. -/
  start : Nat
  lines : List Text
  deriving DecidableEq

/-- The lines of a file, split into sections as far as the markers are clear. -/
inductive SectionSplit where
  /-- The lines before the first marker, and the sections; the third may be missing. -/
  | split (preamble : List Text) (first second : SectionSlice) (third : Option SectionSlice)
  | passthrough (lines : List Text)
  deriving DecidableEq

/-- The lines of a text, without line feeds and the carriage returns before them. A
final line feed opens no line. -/
def splitLines (source : Text) : List Text :=
  let pieces := Text.splitOn Text.lineFeed source
  let ended := pieces.dropLast.map fun line =>
    if line.getLast? == some Text.carriageReturn then line.dropLast else line
  match pieces.getLast? with
  | some [] => ended
  | some last => ended ++ [last]
  | none => ended

/-- Does the line open a section? -/
def isMarkerLine (line : Text) : Bool :=
  line.head? == some (Text.unit '#')

/-- The places of all marker lines, counted from 0. -/
def markerPlaces (lines : List Text) : List Nat :=
  (lines.zipIdx.filter fun l => isMarkerLine l.1).map (·.2)

/-- The lines from one place up to another. -/
def SectionSlice.cut (lines : List Text) (start stop : Nat) : SectionSlice :=
  ⟨start, (lines.take stop).drop start⟩

/-- The warning about an unexpected number of markers. -/
def ambiguousMarkers (places : List Nat) : Violation :=
  let found : Text :=
    if places.isEmpty then "no section markers"
    else
      Text.ofNat places.length ++ " section marker(s) at line(s) "
        ++ Text.joinWith ", " (places.map fun i => Text.ofNat (i + 1))
  { severity := .warning
    origin := .reader .identifyBreakPoints
    message := "Expected two or three lines starting with '#' but found " ++ found
      ++ ". Could not split the file into sections reliably." }

/-- Split lines at their markers if there are two or three of them. -/
def splitSections (lines : List Text) : SectionSplit × List Violation :=
  match markerPlaces lines with
  | [first, second, third] =>
    (.split (lines.take first) (.cut lines first second) (.cut lines second third)
      (some (.cut lines third lines.length)), [])
  | [first, second] =>
    (.split (lines.take first) (.cut lines first second) (.cut lines second lines.length) none, [])
  | places => (.passthrough lines, [ambiguousMarkers places])

/-- The sections between given places, each up to the next one. -/
def slicesFrom (lines : List Text) : List Nat → List SectionSlice
  | [] => []
  | [start] => [.cut lines start lines.length]
  | start :: next :: rest => .cut lines start next :: slicesFrom lines (next :: rest)

/-- One section for every marker. -/
def looseSections (lines : List Text) : List SectionSlice :=
  slicesFrom lines (markerPlaces lines)

/-- The lines before the first section. -/
def SectionSplit.preamble : SectionSplit → List Text
  | .split preamble .. => preamble
  | .passthrough lines => lines.take ((markerPlaces lines).headD lines.length)

/-- The sections of a split file. -/
def SectionSplit.slices : SectionSplit → List SectionSlice
  | .split _ first second third => [first, second] ++ third.toList
  | .passthrough lines => looseSections lines

end MetadataBlock
