import Mathlib.Data.List.DropRight
import MetadataBlock.Proofs.RowExtension
import MetadataBlock.Table.Reader

/-!
# The headers of a marker line

The headers that are read of a marker line are free of white space at their ends. Empty cells
at the end of the line are dropped before that, so a cell of white space at the end leaves an
empty header.

- `trim_trim`, `trim_eq_nil_iff`: removing white space;
- `dropTrailingEmpty_append`, `dropTrailingEmpty_eq_self`: which cells are dropped;
- `blankEnd`, `getLast?_headers_iff`: the white space at the end of a row, and when its headers
  end in an empty one;
- `Pads`, `pads_withCells`: a marker line with blank cells behind it;
- `Normalised`, `normalised_iff`: when such cells do not matter;
- `blankHeader_kept`: a padded line where they do.
-/

namespace MetadataBlock

namespace Text

/-! ## Removing white space -/

theorem head?_trimStart (t : Text) {u : UInt16} (h : (trimStart t).head? = some u) :
    isBlank u = false := by
  have hnot := List.head?_dropWhile_not isBlank t
  rw [show t.dropWhile isBlank = trimStart t from rfl, h] at hnot
  simpa using hnot

theorem trimEnd_prefix (t : Text) : trimEnd t <+: t :=
  List.rdropWhile_prefix isBlank t

/-- White space that is removed at the end leaves the beginning as it was, without any. -/
theorem trimStart_trim (t : Text) : trimStart (trim t) = trim t := by
  cases htrim : trim t with
  | nil => rfl
  | cons u rest =>
    -- the first unit is the one that was left in front
    obtain ⟨after, happend⟩ := trimEnd_prefix (trimStart t)
    have hhead : (trimStart t).head? = some u := by
      rw [← happend, show trimEnd (trimStart t) = u :: rest from htrim]
      rfl
    have hu : ¬ isBlank u = true := by
      rw [head?_trimStart t hhead]
      exact Bool.false_ne_true
    exact List.dropWhile_cons_of_neg hu

/-- Removing white space a second time changes nothing. -/
theorem trim_trim (t : Text) : trim (trim t) = trim t := by
  rw [trim, trimStart_trim]
  exact List.rdropWhile_idempotent isBlank (trimStart t)

/-- Nothing is left of white space only. -/
theorem trim_eq_nil_iff (t : Text) : trim t = [] ↔ isAllBlank t = true := by
  have hend : trim t = [] ↔ ∀ u ∈ trimStart t, isBlank u = true := List.rdropWhile_eq_nil_iff
  have hstart : trimStart t = [] ↔ ∀ u ∈ t, isBlank u = true := List.dropWhile_eq_nil_iff
  rw [hend, isAllBlank, List.all_eq_true, ← hstart]
  constructor
  · intro hall
    by_contra hne
    obtain ⟨u, rest, hcons⟩ := List.exists_cons_of_ne_nil hne
    have hu := head?_trimStart t (u := u) (by rw [hcons]; rfl)
    rw [hall u (by rw [hcons]; exact List.mem_cons_self)] at hu
    cases hu
  · intro hnil
    rw [hnil]
    exact List.forall_mem_nil _

end Text

namespace Table

/-! ## The end of a row -/

/-- The cells of white space at the end of a row, empty ones among them. -/
def blankEnd (cells : List Text) : List Text :=
  cells.rtakeWhile Text.isAllBlank

theorem dropTrailingEmpty_concat (cells : List Text) (cell : Text) :
    dropTrailingEmpty (cells ++ [cell])
      = if cell.isEmpty then dropTrailingEmpty cells else cells ++ [cell] :=
  List.rdropWhile_concat List.isEmpty cells cell

/-- Empty cells at the end are dropped, however many there are. -/
theorem dropTrailingEmpty_append (cells : List Text) {padding : List Text}
    (h : ∀ cell ∈ padding, cell = []) :
    dropTrailingEmpty (cells ++ padding) = dropTrailingEmpty cells := by
  induction padding using List.reverseRecOn with
  | nil => rw [List.append_nil]
  | append_singleton padding cell ih =>
    rw [h cell List.mem_concat_self, ← List.append_assoc, dropTrailingEmpty_concat,
      if_pos List.isEmpty_nil]
    exact ih fun c hc => h c (List.mem_append_left _ hc)

/-- Nothing is dropped where the last cell holds something, were it only white space. -/
theorem dropTrailingEmpty_eq_self {cells : List Text} (h : cells.getLast? ≠ some []) :
    dropTrailingEmpty cells = cells := by
  rcases List.eq_nil_or_concat cells with rfl | ⟨before, last, rfl⟩
  · rfl
  · rw [List.concat_eq_append, List.getLast?_concat] at h
    rw [List.concat_eq_append, dropTrailingEmpty_concat, if_neg]
    rw [List.isEmpty_iff]
    exact fun hlast => h (congrArg some hlast)

theorem blankEnd_append (cells : List Text) {padding : List Text}
    (h : ∀ cell ∈ padding, Text.isAllBlank cell = true) :
    blankEnd (cells ++ padding) = blankEnd cells ++ padding := by
  induction padding using List.reverseRecOn with
  | nil => rw [List.append_nil, List.append_nil]
  | append_singleton padding cell ih =>
    rw [← List.append_assoc, blankEnd,
      List.rtakeWhile_concat_pos _ _ _ (h cell List.mem_concat_self), ← blankEnd,
      ih fun c hc => h c (List.mem_append_left _ hc), List.append_assoc]

/-- The last header is empty exactly if the cells of white space at the end of the row are not
all empty. Empty cells are dropped up to the first that holds something; if that is white
space, it is trimmed to nothing. -/
theorem getLast?_headers_iff (cells : List Text) :
    ((dropTrailingEmpty cells).map Text.trim).getLast? ≠ some []
      ↔ ∀ cell ∈ blankEnd cells, cell = [] := by
  induction cells using List.reverseRecOn with
  | nil => exact iff_of_true nofun (List.forall_mem_nil _)
  | append_singleton cells cell ih =>
    rw [dropTrailingEmpty_concat]
    by_cases hempty : cell = []
    · -- an empty cell is dropped
      subst hempty
      rw [if_pos List.isEmpty_nil, ih,
        blankEnd_append cells (List.forall_mem_singleton.mpr (by rfl)), List.forall_mem_append,
        List.forall_mem_singleton, and_iff_left rfl]
    · -- any other is the last header
      rw [if_neg (by simpa using hempty), List.map_append, List.map_singleton,
        List.getLast?_concat, Ne, Option.some_inj, Text.trim_eq_nil_iff]
      cases hblank : Text.isAllBlank cell with
      | true =>
        rw [blankEnd_append cells (by simpa using hblank)]
        simp [hempty]
      | false =>
        rw [blankEnd, List.rtakeWhile_concat_neg _ _ _ (by simp [hblank])]
        simp

/-! ## Padded marker lines -/

/-- The padded line is read as the line with some blank cells behind it. -/
structure Pads (line padded : Text) (padding : List Text) : Prop where
  first : (Row.read padded).cells.headD [] = (Row.read line).cells.headD []
  more : (Row.read padded).cells.tail = (Row.read line).cells.tail ++ padding
  blank : ∀ cell ∈ padding, Text.isAllBlank cell = true

/-- The headers of a line are normalised, and padding does not change what is read of it. -/
structure Normalised (line padded : Text) : Prop where
  /-- No header has white space at its ends. -/
  trimmed : ∀ header ∈ (parseMarkerLine line).headers, Text.trim header = header
  /-- The last header is not empty. -/
  ended : (parseMarkerLine line).headers.getLast? ≠ some []
  /-- The keyword and the headers of the padded line are the same. -/
  same : parseMarkerLine padded = parseMarkerLine line

/-- Blank cells can be put behind every line in which no quote is left open. Behind an open
quote they would be text of its cell. -/
theorem pads_withCells {line : Text} (hline : Text.lineFeed ∉ line)
    (hclosed : .unterminated ∉ (Row.read line).faults) {texts padding : List Text}
    (hpadding : List.Forall₂ Row.Reads texts padding)
    (hblank : ∀ cell ∈ padding, Text.isAllBlank cell = true) :
    Pads line (Row.withCells line texts) padding := by
  obtain ⟨hfirst, hmore⟩ := Row.read_withCells hpadding hline hclosed
  exact ⟨hfirst, hmore, hblank⟩

theorem trim_of_mem_headers {line header : Text} (h : header ∈ (parseMarkerLine line).headers) :
    Text.trim header = header := by
  obtain ⟨cell, -, rfl⟩ := List.mem_map.mp h
  exact Text.trim_trim cell

/-- The headers of a line have no white space at their ends. They are normalised, whatever
blank cells the line is padded with, exactly if the cells of white space at the end of the
padded line are all empty; and blank cells can be put behind it, if no quote is left open. -/
theorem normalised_iff (line : Text) :
    (∀ header ∈ (parseMarkerLine line).headers, Text.trim header = header)
      ∧ (∀ padded padding, Pads line padded padding →
        (Normalised line padded ↔ ∀ cell ∈ blankEnd (Row.read padded).cells.tail, cell = []))
      ∧ (Text.lineFeed ∉ line → .unterminated ∉ (Row.read line).faults →
        ∀ texts padding, List.Forall₂ Row.Reads texts padding →
          (∀ cell ∈ padding, Text.isAllBlank cell = true) →
            Pads line (Row.withCells line texts) padding) := by
  refine ⟨fun _ => trim_of_mem_headers, fun padded padding hpads => ?_,
    fun hline hclosed _ _ hpadding hblank => pads_withCells hline hclosed hpadding hblank⟩
  constructor
  · intro h
    have hended := h.ended
    rw [← h.same] at hended
    exact (getLast?_headers_iff _).mp hended
  · intro hempty
    rw [hpads.more, blankEnd_append _ hpads.blank, List.forall_mem_append] at hempty
    refine ⟨fun _ => trim_of_mem_headers, (getLast?_headers_iff _).mpr hempty.1, ?_⟩
    rw [parseMarkerLine, parseMarkerLine, hpads.first, hpads.more,
      dropTrailingEmpty_append _ hempty.2]

/-- A line that ends in an empty cell is read the same with two more behind it, the last of
them in quotes. -/
theorem normalised_fieldType :
    Pads "#datasetField\tname\t fieldType \t" "#datasetField\tname\t fieldType \t\t\t\"\"" [[], []]
      ∧ Normalised "#datasetField\tname\t fieldType \t"
          "#datasetField\tname\t fieldType \t\t\t\"\""
      ∧ (parseMarkerLine "#datasetField\tname\t fieldType \t").headers = ["name", "fieldType"] := by
  obtain ⟨-, hnormalised, hpads⟩ := normalised_iff "#datasetField\tname\t fieldType \t"
  have htexts : List.Forall₂ Row.Reads ["", "\"\""] [[], []] :=
    .cons ⟨by decide +kernel, by decide⟩ (.cons ⟨by decide +kernel, by decide⟩ .nil)
  have hpadded := hpads (by decide) (by decide +kernel) _ _ htexts (by decide)
  exact ⟨hpadded, (hnormalised _ _ hpadded).mpr (by decide +kernel), by decide +kernel⟩

/-- With a space behind it a marker line has an empty header. -/
theorem blankHeader_kept :
    Pads "#datasetField\tname" "#datasetField\tname\t " [" "]
      ∧ (parseMarkerLine "#datasetField\tname").headers = ["name"]
      ∧ (parseMarkerLine "#datasetField\tname\t ").headers = ["name", ""]
      ∧ (parseMarkerLine "#datasetField\tname\t ").headers.getLast? = some []
      ∧ ¬ Normalised "#datasetField\tname" "#datasetField\tname\t " := by
  have hshort : (parseMarkerLine "#datasetField\tname").headers = ["name"] := by decide +kernel
  have hlong : (parseMarkerLine "#datasetField\tname\t ").headers = ["name", ""] := by
    decide +kernel
  refine ⟨⟨by decide +kernel, by decide +kernel, by decide⟩, hshort, hlong,
    by rw [hlong]; rfl, fun h => ?_⟩
  have hsame := congrArg Marker.headers h.same
  rw [hshort, hlong] at hsame
  cases hsame

end Table

end MetadataBlock
