import MetadataBlock.Proofs.SectionLines

/-!
# The sections of a file are a partition of its lines

Cutting a file at its markers loses no line: the lines in front of the first marker and the
lines of the sections, one after the other, are the file. This holds of the walk from marker
to marker, and the split into two or three sections gives the same sections.

- `StandsAt`: a section that is found in its place;
- `Partition`, `partition_looseSections`: lines as some without a marker and sections;
- `SplitOutcome`, `splitSections_outcome`: the split, and the walk where there is none.
-/

namespace MetadataBlock

/-- A marker line with lines below it that are no markers, found in its place: the marker is
the line at index `start`, and the other lines follow it. -/
structure StandsAt (lines : List Text) (s : SectionSlice) : Prop where
  chunk : IsChunk s.lines
  marker : s.lines.head? = lines[s.start]?
  follows : s.lines <+: lines.drop s.start

/-- Lines that are some lines without a marker, followed by the lines of sections. -/
structure Partition (lines before : List Text) (sections : List SectionSlice) : Prop where
  unmarked : ∀ line ∈ before, isMarkerLine line = false
  whole : before ++ sections.flatMap (·.lines) = lines
  placed : ∀ s ∈ sections, StandsAt lines s

/-! ## Walking from marker to marker -/

theorem flatMap_lines_placed (start : Nat) (chunks : List (List Text)) :
    (placed start chunks).flatMap (·.lines) = chunks.flatten := by
  induction chunks generalizing start with
  | nil => rfl
  | cons chunk chunks ih => rw [placed, List.flatMap_cons, ih, List.flatten_cons]

/-- A chunk stands where the lines in front of it end. -/
theorem standsAt_append (before after : List Text) {chunk : List Text} (h : IsChunk chunk) :
    StandsAt (before ++ (chunk ++ after)) ⟨before.length, chunk⟩ := by
  refine ⟨h, ?_, ?_⟩
  · rw [List.getElem?_append_right (Nat.le_refl _), Nat.sub_self, ← List.head?_eq_getElem?,
      List.head?_append]
    cases chunk with
    | nil => exact h.elim
    | cons marker rows => rfl
  · show chunk <+: (before ++ (chunk ++ after)).drop before.length
    rw [List.drop_left]
    exact List.prefix_append chunk after

/-- Chunks that follow each other stand in their places, behind all that come before them. -/
theorem standsAt_placed (before : List Text) {chunks : List (List Text)}
    (h : ∀ chunk ∈ chunks, IsChunk chunk) :
    ∀ s ∈ placed before.length chunks, StandsAt (before ++ chunks.flatten) s := by
  induction chunks generalizing before with
  | nil => exact List.forall_mem_nil _
  | cons chunk chunks ih =>
    obtain ⟨hchunk, hrest⟩ := List.forall_mem_cons.mp h
    -- the first chunk moves in front of the others
    have hothers := ih (before ++ chunk) hrest
    rw [List.length_append, List.append_assoc] at hothers
    exact List.forall_mem_cons.mpr ⟨standsAt_append before chunks.flatten hchunk, hothers⟩

/-- Walking from marker to marker loses no line. Lines are chunks behind some lines without a
marker, and the walk finds these chunks. -/
theorem partition_looseSections (lines : List Text) :
    Partition lines (lines.takeWhile fun line => !isMarkerLine line) (looseSections lines) := by
  obtain ⟨before, chunks, rfl, hbefore, hchunks⟩ := exists_chunks lines
  rw [takeWhile_chunks hbefore hchunks, looseSections_chunks hbefore hchunks]
  exact ⟨hbefore, congrArg (before ++ ·) (flatMap_lines_placed before.length chunks),
    standsAt_placed before hchunks⟩

/-! ## Splitting -/

/-- There are as many places of markers as marker lines. -/
theorem length_markerPlaces (lines : List Text) :
    (markerPlaces lines).length = lines.countP isMarkerLine := by
  rw [markerPlaces, List.length_map, ← List.countP_eq_length_filter]
  conv_rhs => rw [← List.zipIdx_map_fst 0 lines, List.countP_map]
  rfl

/-- The two outcomes of splitting lines. Two or three markers give their sections, and any other
number gives the lines back with one warning; then the sections of the walk are what is left to
go by. -/
inductive SplitOutcome (lines : List Text) : SectionSplit × List Violation → Prop where
  | split {preamble : List Text} {first second : SectionSlice} {third : Option SectionSlice}
      (count : lines.countP isMarkerLine = 2 ∨ lines.countP isMarkerLine = 3)
      (partition : Partition lines preamble ([first, second] ++ third.toList))
      (loose : [first, second] ++ third.toList = looseSections lines) :
      SplitOutcome lines (.split preamble first second third, [])
  | passthrough {warning : Violation}
      (count : lines.countP isMarkerLine ≠ 2 ∧ lines.countP isMarkerLine ≠ 3)
      (severity : warning.severity = .warning)
      (partition : Partition lines (lines.takeWhile fun line => !isMarkerLine line)
        (looseSections lines)) :
      SplitOutcome lines (.passthrough lines, [warning])

/-- Lines are split exactly at two or three markers. No line is lost, neither by the split nor
by the walk from marker to marker, and both find the same sections. The cases are the numbers
of places that the split distinguishes. -/
theorem splitSections_outcome (lines : List Text) : SplitOutcome lines (splitSections lines) := by
  have hpartition := partition_looseSections lines
  have hcount := length_markerPlaces lines
  rw [splitSections]
  split
  · next first second third hplaces =>
    rw [looseSections, ← preamble_eq, hplaces] at hpartition
    refine .split (.inr ?_) hpartition ?_
    · rw [← hcount, hplaces]
      rfl
    · rw [looseSections, hplaces]
      rfl
  · next first second hplaces =>
    rw [looseSections, ← preamble_eq, hplaces] at hpartition
    refine .split (.inl ?_) hpartition ?_
    · rw [← hcount, hplaces]
      rfl
    · rw [looseSections, hplaces]
      rfl
  · next hthree htwo =>
    -- neither pattern fits, so there are neither two places nor three
    refine .passthrough ?_ rfl hpartition
    rw [← hcount]
    constructor
    · intro hlength
      obtain ⟨first, second, hplaces⟩ := List.length_eq_two.mp hlength
      exact htwo first second hplaces
    · intro hlength
      obtain ⟨first, second, third, hplaces⟩ := List.length_eq_three.mp hlength
      exact hthree first second third hplaces

end MetadataBlock
