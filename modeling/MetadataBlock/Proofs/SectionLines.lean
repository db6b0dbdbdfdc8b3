import Mathlib.Data.List.Basic
import MetadataBlock.Table.Sections

/-!
# The lines and the sections of a file

Lines that are each ended by a line feed are the lines of the file, and the
sections of a file are its lines cut in front of every marker line. Both ways to
find the sections, the split into the expected two or three and the walk from
marker to marker, come to the same.

- `endLines`, `splitLines_endLines`: ending lines and splitting them again;
- `lineFeed_not_mem_splitLines`: no line holds a line feed;
- `IsChunk`, `exists_chunks`, `placed`: a marker line with the lines below it, lines as such
  chunks, and chunks in their places;
- `markerPlaces_chunks`, `looseSections_chunks`: the markers and the sections of a file
  made of chunks;
- `slices_splitSections`, `violations_splitSections`: what the split gives, in
  terms of the walk and of the number of markers.
-/

namespace MetadataBlock

open Text (lineFeed carriageReturn)

/-! ## Lines -/

/-- The text in which every line is ended by a line feed. -/
def endLines (lines : List Text) : Text :=
  lines.flatMap (· ++ [lineFeed])

theorem endLines_cons (line : Text) (lines : List Text) :
    endLines (line :: lines) = line ++ lineFeed :: endLines lines := by
  simp [endLines]

theorem splitOn_cons_sep (sep : UInt16) (rest : Text) :
    Text.splitOn sep (sep :: rest) = [] :: Text.splitOn sep rest := by
  rw [Text.splitOn, if_pos (beq_self_eq_true sep)]

theorem splitOn_cons_other {sep u : UInt16} (h : u ≠ sep) {rest piece : Text}
    {pieces : List Text} (hrest : Text.splitOn sep rest = piece :: pieces) :
    Text.splitOn sep (u :: rest) = (u :: piece) :: pieces := by
  rw [Text.splitOn, if_neg (by simpa using h), hrest]

/-- A piece without the separator runs to the first one, and what is behind it is split by
itself. -/
theorem splitOn_append {sep : UInt16} {piece : Text} (h : sep ∉ piece) (rest : Text) :
    Text.splitOn sep (piece ++ sep :: rest) = piece :: Text.splitOn sep rest := by
  induction piece with
  | nil => exact splitOn_cons_sep sep rest
  | cons u piece ih =>
    have hu : u ≠ sep := fun e => h (e ▸ List.mem_cons_self)
    have hpiece : sep ∉ piece := fun m => h (List.mem_cons_of_mem _ m)
    rw [List.cons_append]
    exact splitOn_cons_other hu (ih hpiece)

theorem splitOn_ne_nil (sep : UInt16) (t : Text) : Text.splitOn sep t ≠ [] := by
  cases t with
  | nil => simp [Text.splitOn]
  | cons u rest =>
    rw [Text.splitOn]
    split
    · simp
    · split <;> simp

/-- No piece holds the separator. -/
theorem sep_not_mem_splitOn (sep : UInt16) (t : Text) :
    ∀ piece ∈ Text.splitOn sep t, sep ∉ piece := by
  induction t with
  | nil => simp [Text.splitOn]
  | cons u rest ih =>
    by_cases hu : u = sep
    · subst hu
      rw [splitOn_cons_sep]
      exact List.forall_mem_cons.mpr ⟨List.not_mem_nil, ih⟩
    · obtain ⟨piece, pieces, hpieces⟩ := List.exists_cons_of_ne_nil (splitOn_ne_nil sep rest)
      rw [splitOn_cons_other hu hpieces]
      rw [hpieces, List.forall_mem_cons] at ih
      refine List.forall_mem_cons.mpr ⟨?_, ih.2⟩
      intro hmem
      rcases List.mem_cons.mp hmem with hsep | hmem
      · exact hu hsep.symm
      · exact ih.1 hmem

/-- Behind the last line feed there is an empty piece, which is no line. -/
theorem splitOn_endLines {lines : List Text} (h : ∀ line ∈ lines, lineFeed ∉ line) :
    Text.splitOn lineFeed (endLines lines) = lines ++ [[]] := by
  induction lines with
  | nil => rfl
  | cons line lines ih =>
    rw [List.forall_mem_cons] at h
    rw [endLines_cons, splitOn_append h.1, ih h.2]
    rfl

/-- Splitting gives back the lines that were ended, unless one of them holds a line feed or
would lose a carriage return at its end. A line feed would make two lines of one. -/
theorem splitLines_endLines {lines : List Text} (hlf : ∀ line ∈ lines, lineFeed ∉ line)
    (hcr : ∀ line ∈ lines, line.getLast? ≠ some carriageReturn) :
    splitLines (endLines lines) = lines := by
  have hended : lines.map (fun line =>
      if line.getLast? == some carriageReturn then line.dropLast else line) = lines := by
    refine (List.map_congr_left fun line hline => ?_).trans (List.map_id lines)
    rw [if_neg (by simpa using hcr line hline)]
    rfl
  simp only [splitLines, splitOn_endLines hlf, List.dropLast_concat, List.getLast?_concat]
  exact hended

/-- The lines of a text hold no line feed. -/
theorem lineFeed_not_mem_splitLines (source : Text) :
    ∀ line ∈ splitLines source, lineFeed ∉ line := by
  have hpieces := sep_not_mem_splitOn lineFeed source
  -- a carriage return is dropped in front of a line feed only, so the last piece stays as it is
  have hended : ∀ line ∈ (Text.splitOn lineFeed source).dropLast.map (fun line =>
      if line.getLast? == some carriageReturn then line.dropLast else line), lineFeed ∉ line := by
    intro line hline
    obtain ⟨piece, hpiece, rfl⟩ := List.mem_map.mp hline
    have hfree := hpieces piece ((List.dropLast_sublist _).subset hpiece)
    split
    · exact fun hmem => hfree ((List.dropLast_sublist _).subset hmem)
    · exact hfree
  intro line hline
  simp only [splitLines] at hline
  split at hline
  · exact hended line hline
  · next last _ hlast =>
    rcases List.mem_append.mp hline with hline | hline
    · exact hended line hline
    · rw [List.mem_singleton.mp hline]
      exact hpieces last (List.mem_of_getLast? hlast)
  · exact hended line hline

/-! ## Chunks of lines -/

/-- A marker line with the lines below it, none of which is a marker. -/
def IsChunk : List Text → Prop
  | [] => False
  | marker :: rows => isMarkerLine marker = true ∧ ∀ row ∈ rows, isMarkerLine row = false

/-- Lines are some lines without a marker, followed by chunks. The induction puts one line in
front: a marker starts a chunk with the lines that had none in front of them. -/
theorem exists_chunks (lines : List Text) :
    ∃ (before : List Text) (chunks : List (List Text)), lines = before ++ chunks.flatten
      ∧ (∀ line ∈ before, isMarkerLine line = false) ∧ ∀ chunk ∈ chunks, IsChunk chunk := by
  induction lines with
  | nil => exact ⟨[], [], rfl, List.forall_mem_nil _, List.forall_mem_nil _⟩
  | cons line lines ih =>
    obtain ⟨before, chunks, rfl, hbefore, hchunks⟩ := ih
    by_cases hmarker : isMarkerLine line = true
    · -- the line opens a chunk with the lines that had no marker in front of them
      refine ⟨[], (line :: before) :: chunks, rfl, List.forall_mem_nil _, ?_⟩
      exact List.forall_mem_cons.mpr ⟨⟨hmarker, hbefore⟩, hchunks⟩
    · refine ⟨line :: before, chunks, rfl, ?_, hchunks⟩
      exact List.forall_mem_cons.mpr ⟨Bool.not_eq_true _ ▸ hmarker, hbefore⟩

/-- Lines without a marker run up to the first chunk. -/
theorem takeWhile_chunks {before : List Text} {chunks : List (List Text)}
    (hbefore : ∀ line ∈ before, isMarkerLine line = false) (hchunks : ∀ chunk ∈ chunks, IsChunk chunk) :
    (before ++ chunks.flatten).takeWhile (fun line => !isMarkerLine line) = before := by
  have hrest : chunks.flatten.takeWhile (fun line => !isMarkerLine line) = [] := by
    cases chunks with
    | nil => rfl
    | cons chunk chunks =>
      have hchunk := hchunks chunk List.mem_cons_self
      cases chunk with
      | nil => exact hchunk.elim
      | cons marker rows =>
        rw [List.flatten_cons, List.cons_append, List.takeWhile_cons_of_neg (by simp [hchunk.1])]
  rw [List.takeWhile_append_of_pos (by simpa using hbefore), hrest, List.append_nil]

/-- Chunks that follow each other from a place of the file on. -/
def placed : Nat → List (List Text) → List SectionSlice
  | _, [] => []
  | start, chunk :: chunks => ⟨start, chunk⟩ :: placed (start + chunk.length) chunks

theorem length_placed (start : Nat) (chunks : List (List Text)) :
    (placed start chunks).length = chunks.length := by
  induction chunks generalizing start with
  | nil => rfl
  | cons chunk chunks ih => exact congrArg (· + 1) (ih _)

/-- The places of the marker lines, counted from a given place. -/
def markersFrom (start : Nat) (lines : List Text) : List Nat :=
  ((lines.zipIdx start).filter fun l => isMarkerLine l.1).map (·.2)

theorem markersFrom_append (start : Nat) (before after : List Text) :
    markersFrom start (before ++ after)
      = markersFrom start before ++ markersFrom (start + before.length) after := by
  simp [markersFrom, List.zipIdx_append]

theorem markersFrom_eq_nil (start : Nat) {lines : List Text}
    (h : ∀ line ∈ lines, isMarkerLine line = false) : markersFrom start lines = [] := by
  rw [markersFrom, List.map_eq_nil_iff, List.filter_eq_nil_iff]
  intro l hl
  rw [h l.1 (List.fst_mem_of_mem_zipIdx hl)]
  exact Bool.false_ne_true

/-- A chunk has one marker, at its beginning. -/
theorem markersFrom_chunk (start : Nat) {chunk : List Text} (h : IsChunk chunk) :
    markersFrom start chunk = [start] := by
  cases chunk with
  | nil => exact h.elim
  | cons marker rows =>
    have hrows := markersFrom_eq_nil (start + 1) h.2
    rw [markersFrom] at hrows ⊢
    simp [List.zipIdx_cons, h.1, hrows]

/-- The markers of chunks stand where the chunks start. -/
theorem markersFrom_chunks (start : Nat) {chunks : List (List Text)}
    (h : ∀ chunk ∈ chunks, IsChunk chunk) :
    markersFrom start chunks.flatten = (placed start chunks).map (·.start) := by
  induction chunks generalizing start with
  | nil => rfl
  | cons chunk chunks ih =>
    rw [List.forall_mem_cons] at h
    rw [List.flatten_cons, markersFrom_append, markersFrom_chunk start h.1, ih _ h.2]
    rfl

theorem cut_append (before chunk after : List Text) :
    SectionSlice.cut (before ++ (chunk ++ after)) before.length (before.length + chunk.length)
      = ⟨before.length, chunk⟩ := by
  rw [SectionSlice.cut, ← List.append_assoc, List.take_left' (by simp), List.drop_left]

/-- Cutting at the places of chunks gives the chunks. The induction moves one chunk after the
other to the lines in front; the last one is cut at the end of the file. -/
theorem slicesFrom_placed (before : List Text) (chunks : List (List Text)) :
    slicesFrom (before ++ chunks.flatten) ((placed before.length chunks).map (·.start))
      = placed before.length chunks := by
  induction chunks generalizing before with
  | nil => rfl
  | cons chunk chunks ih =>
    cases chunks with
    | nil =>
      have hcut := cut_append before chunk []
      simp only [List.append_nil] at hcut
      simp [placed, slicesFrom, hcut]
    | cons next chunks =>
      -- the first chunk moves in front of the others
      have hrest := ih (before ++ chunk)
      rw [List.length_append, List.append_assoc] at hrest
      show SectionSlice.cut (before ++ (chunk ++ (next :: chunks).flatten)) before.length
          (before.length + chunk.length) :: slicesFrom _ _ = _
      rw [cut_append]
      exact congrArg _ hrest

section

variable {before : List Text} {chunks : List (List Text)}
  (hbefore : ∀ line ∈ before, isMarkerLine line = false) (hchunks : ∀ chunk ∈ chunks, IsChunk chunk)

include hbefore hchunks

/-- The markers of lines that are chunks behind some lines without a marker. -/
theorem markerPlaces_chunks :
    markerPlaces (before ++ chunks.flatten) = (placed before.length chunks).map (·.start) := by
  show markersFrom 0 (before ++ chunks.flatten) = _
  rw [markersFrom_append, markersFrom_eq_nil 0 hbefore, Nat.zero_add,
    markersFrom_chunks _ hchunks, List.nil_append]

/-- The sections of such lines are the chunks in their places. -/
theorem looseSections_chunks :
    looseSections (before ++ chunks.flatten) = placed before.length chunks := by
  rw [looseSections, markerPlaces_chunks hbefore hchunks, slicesFrom_placed]

end

/-- The lines before the first marker. -/
theorem preamble_eq (lines : List Text) :
    lines.take ((markerPlaces lines).headD lines.length)
      = lines.takeWhile fun line => !isMarkerLine line := by
  obtain ⟨before, chunks, rfl, hbefore, hchunks⟩ := exists_chunks lines
  rw [takeWhile_chunks hbefore hchunks, markerPlaces_chunks hbefore hchunks]
  cases chunks with
  | nil => simp [placed]
  | cons chunk chunks => simp [placed]

/-! ## Splitting -/

/-- The split and the walk find the same sections. The split writes down two or three cuts, and
the walk makes the same ones. -/
theorem slices_splitSections (lines : List Text) :
    (splitSections lines).1.slices = looseSections lines := by
  rw [splitSections]
  split
  · next first second third hplaces => rw [looseSections, hplaces]; rfl
  · next first second hplaces => rw [looseSections, hplaces]; rfl
  · rfl

/-- The lines before the first section are those before the first marker. -/
theorem preamble_splitSections (lines : List Text) :
    (splitSections lines).1.preamble = lines.take ((markerPlaces lines).headD lines.length) := by
  rw [splitSections]
  split
  · next first second third hplaces => rw [hplaces]; rfl
  · next first second hplaces => rw [hplaces]; rfl
  · rfl

/-- Two or three markers are expected; any other number is reported once. -/
theorem violations_splitSections (lines : List Text) :
    (splitSections lines).2
      = if (markerPlaces lines).length = 2 ∨ (markerPlaces lines).length = 3 then []
        else [ambiguousMarkers (markerPlaces lines)] := by
  rw [splitSections]
  split
  · next first second third hplaces => rw [hplaces]; rfl
  · next first second hplaces => rw [hplaces]; rfl
  · next hthree htwo =>
    rw [if_neg]
    rintro (hlen | hlen)
    · obtain ⟨first, second, hplaces⟩ := List.length_eq_two.mp hlen
      exact htwo first second hplaces
    · obtain ⟨first, second, third, hplaces⟩ := List.length_eq_three.mp hlen
      exact hthree first second third hplaces

end MetadataBlock
