import MetadataBlock.Proofs.ReadBack

/-!
# Documents read from tables

The document that is read from a table holds records, the records of a section have
the headers as their keys, and every value is decoded from a cell on one line.

- `slice_subset`, `mem_readRows`: every line of a section is a line of the file, and
  every record is read from one of them;
- `rowEntries_spec`: the keys and the values of a row;
- `records_documentRead`: the records of a table.
-/

namespace MetadataBlock.Table

open Text (lineFeed)

/-- The lines of a section are lines of the file. -/
theorem slice_subset {lines : List Text} (places : List Nat) :
    ∀ slice ∈ slicesFrom lines places, ∀ line ∈ slice.lines, line ∈ lines := by
  have hcut : ∀ start stop, ∀ line ∈ (SectionSlice.cut lines start stop).lines, line ∈ lines :=
    fun start stop line hline => List.mem_of_mem_take (List.mem_of_mem_drop hline)
  induction places with
  | nil => exact List.forall_mem_nil _
  | cons start places ih =>
    cases places with
    | nil => exact List.forall_mem_singleton.mpr (hcut _ _)
    | cons next places => exact List.forall_mem_cons.mpr ⟨hcut _ _, ih⟩

/-- Every record is read from one of the rows, at some line. -/
theorem mem_readRows {m : Marker} {rows : List Text} {line : Nat} :
    ∀ read ∈ readRows m line rows, ∃ row ∈ rows, ∃ n, read = readRow m n row := by
  induction rows generalizing line with
  | nil => exact List.forall_mem_nil _
  | cons row rows ih =>
    intro read hread
    have hrest : (∃ row' ∈ rows, ∃ n, read = readRow m n row')
        → ∃ row' ∈ row :: rows, ∃ n, read = readRow m n row' := by
      rintro ⟨row', hrow', n, rfl⟩
      exact ⟨row', List.mem_cons_of_mem _ hrow', n, rfl⟩
    rw [readRows] at hread
    split at hread
    · exact hrest (ih read hread)
    · rcases List.mem_cons.mp hread with rfl | hread
      · exact ⟨row, List.mem_cons_self, line, rfl⟩
      · exact hrest (ih read hread)

/-- A row gives every header the scalar of a cell, which is empty if the row is short. Further
cells give nothing. -/
theorem rowEntries_spec (position : Position) (headers cells : List Text) :
    (rowEntries position headers cells).map (·.key) = headers
      ∧ ∀ f ∈ rowEntries position headers cells, ∃ cell, (cell = [] ∨ cell ∈ cells)
        ∧ f.value.scalar? = some (Cell.parse cell) := by
  induction headers generalizing cells with
  | nil => exact ⟨rfl, List.forall_mem_nil _⟩
  | cons header headers ih =>
    obtain ⟨hkeys, hvalues⟩ := ih cells.tail
    refine ⟨congrArg _ hkeys, List.forall_mem_cons.mpr ⟨⟨cells.headD [], ?_, rfl⟩, ?_⟩⟩
    · cases cells with
      | nil => exact .inl rfl
      | cons cell cells => exact .inr List.mem_cons_self
    · intro f hf
      obtain ⟨cell, hcell, hvalue⟩ := hvalues f hf
      exact ⟨cell, hcell.imp_right List.mem_of_mem_tail, hvalue⟩

/-- The records of a section of a table have its headers as their keys, and their
values are decoded from cells without line feeds. -/
structure TableRecord (headers : List Text) (r : Mapping) : Prop where
  keys : r.keys = headers
  values : ∀ f ∈ r.entries, ∃ cell, lineFeed ∉ cell ∧ f.value.scalar? = some (Cell.parse cell)

/-- Every value of such a record is decoded from a cell. -/
theorem TableRecord.exists_cell {headers : List Text} {r : Mapping} (h : TableRecord headers r)
    {key : Text} {v : Scalar} (hv : r.scalar? key = some v) :
    ∃ cell, lineFeed ∉ cell ∧ v = Cell.parse cell := by
  rw [Mapping.scalar?_eq_bind, Option.bind_eq_some_iff] at hv
  obtain ⟨node, hentry, hnode⟩ := hv
  obtain ⟨f, hf, -, rfl⟩ := Mapping.mem_of_entry? hentry
  obtain ⟨cell, hcell, hvalue⟩ := h.values f hf
  exact ⟨cell, hcell, Option.some.inj (hnode.symm.trans hvalue)⟩

theorem tableRecord_readRow {m : Marker} {row : Text} (h : lineFeed ∉ row) (line : Nat) :
    TableRecord m.headers (readRow m line row).record := by
  obtain ⟨hkeys, hvalues⟩ := rowEntries_spec ⟨line, none⟩ m.headers (Row.read row).cells.tail
  refine ⟨hkeys, fun f hf => ?_⟩
  obtain ⟨cell, hcell, hvalue⟩ := hvalues f hf
  refine ⟨cell, ?_, hvalue⟩
  rcases hcell with rfl | hcell
  · exact List.not_mem_nil
  · have hunits : ∀ cell ∈ (Row.read row).cells, ∀ u ∈ cell, u ≠ lineFeed :=
      Row.read_forall fun u hu hlf => h (hlf ▸ hu)
    exact fun hmem => hunits cell (List.mem_of_mem_tail hcell) lineFeed hmem rfl

/-- Every section of a table has its headers. -/
theorem records_documentRead (source : Text) :
    ∀ e ∈ (documentRead source).entries, ∃ headers, ∀ r ∈ e.value.records, TableRecord headers r := by
  intro e he
  obtain ⟨slice, hslice, rfl⟩ := List.mem_map.mp he
  refine ⟨(parseMarkerLine (slice.lines.headD [])).headers, fun r hr => ?_⟩
  rw [records_readSection] at hr
  obtain ⟨read, hread, rfl⟩ := List.mem_map.mp hr
  obtain ⟨row, hrow, n, rfl⟩ := mem_readRows read hread
  have hline : row ∈ splitLines source :=
    slice_subset _ slice hslice row (List.mem_of_mem_tail hrow)
  exact tableRecord_readRow (lineFeed_not_mem_splitLines source row hline) n

end MetadataBlock.Table
