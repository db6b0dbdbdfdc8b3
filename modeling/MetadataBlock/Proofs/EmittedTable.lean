import Mathlib.Data.List.Forall2
import Mathlib.Order.Bounds.Basic
import MetadataBlock.Proofs.SectionOrder
import MetadataBlock.Proofs.WrittenTable

/-!
# What the writer emits

The table of a document holds its sections in canonical order: a header row with every key
of the section once, a row for every record, and empty cells up to one width. No table is
written exactly if a value that a cell would show is not a scalar.

- `FirstSeen`, `firstSeen_eraseDups`: the distinct keys in order of first occurrence;
- `CellOf`, `SectionTable`, `Filled`, `TableOf`: the cells, the rows of a section, and the
  table of a document;
- `HoldsNested`, `holdsNested_of_error`, `not_holdsNested_of_ok`: the values that cannot be
  written;
- `render_emits`: the text of a document.
-/

namespace MetadataBlock.Table

/-! ## Steps that may fail -/

section

variable {ε β γ : Type}

theorem bind_eq_ok_iff {x : Except ε β} {f : β → Except ε γ} {c : γ} :
    (x >>= f) = .ok c ↔ ∃ b, x = .ok b ∧ f b = .ok c := by
  cases x with
  | error e => exact ⟨fun h => (nomatch h), fun ⟨_, h, _⟩ => (nomatch h)⟩
  | ok b => exact ⟨fun h => ⟨b, rfl, h⟩, fun ⟨_, hb, h⟩ => by cases hb; exact h⟩

/-- Two steps in a row fail if the first one does, or the second one after it. -/
theorem bind_eq_error_iff {x : Except ε β} {f : β → Except ε γ} {e : ε} :
    (x >>= f) = .error e ↔ x = .error e ∨ ∃ b, x = .ok b ∧ f b = .error e := by
  cases x with
  | error e' =>
    constructor
    · intro h
      cases h
      exact .inl rfl
    · rintro (h | ⟨_, h, _⟩) <;> cases h
      rfl
  | ok b =>
    constructor
    · exact fun h => .inr ⟨b, rfl, h⟩
    · rintro (h | ⟨_, hb, h⟩)
      · cases h
      · cases hb
        exact h

variable {α : Type} {f : α → Except ε β}

/-- Steps that all succeed give their results one by one and in order. -/
theorem forall₂_of_mapM_eq_ok {l : List α} {bs : List β} (h : l.mapM f = .ok bs) :
    List.Forall₂ (fun a b => f a = .ok b) l bs := by
  induction l generalizing bs with
  | nil =>
    cases h
    exact .nil
  | cons a l ih =>
    rw [List.mapM_cons] at h
    obtain ⟨b, hb, h⟩ := bind_eq_ok_iff.mp h
    obtain ⟨bs', hbs, h⟩ := bind_eq_ok_iff.mp h
    cases h
    exact .cons hb (ih hbs)

/-- If a row of steps fails, one of them does, with this error. -/
theorem exists_of_mapM_eq_error {l : List α} {e : ε} (h : l.mapM f = .error e) :
    ∃ a ∈ l, f a = .error e := by
  induction l with
  | nil => cases h
  | cons a l ih =>
    rw [List.mapM_cons] at h
    rcases bind_eq_error_iff.mp h with ha | ⟨b, -, h⟩
    · exact ⟨a, List.mem_cons_self, ha⟩
    · rcases bind_eq_error_iff.mp h with hl | ⟨_, -, h⟩
      · obtain ⟨a', ha', he⟩ := ih hl
        exact ⟨a', List.mem_cons_of_mem a ha', he⟩
      · cases h

variable {R : α → β → Prop}

/-- Every element has a partner in the other list. -/
theorem exists_partner {l : List α} {bs : List β} (h : List.Forall₂ R l bs) {a : α} (ha : a ∈ l) :
    ∃ b ∈ bs, R a b := by
  induction h with
  | nil => cases ha
  | cons hab _ ih =>
    rcases List.mem_cons.mp ha with rfl | ha
    · exact ⟨_, List.mem_cons_self, hab⟩
    · obtain ⟨b, hb, hr⟩ := ih ha
      exact ⟨b, List.mem_cons_of_mem _ hb, hr⟩

theorem exists_origin {l : List α} {bs : List β} (h : List.Forall₂ R l bs) {b : β} (hb : b ∈ bs) :
    ∃ a ∈ l, R a b :=
  exists_partner h.flip hb

end

/-! ## Distinct keys -/

/-- The distinct elements of a list in order of first occurrence. -/
structure FirstSeen (all distinct : List Text) : Prop where
  nodup : distinct.Nodup
  mem_iff : ∀ t, t ∈ distinct ↔ t ∈ all
  ordered : distinct.Pairwise fun t u => all.idxOf t < all.idxOf u

theorem firstSeen_eraseDups (all : List Text) : FirstSeen all all.eraseDups :=
  ⟨nodup_eraseDups all, fun _ => List.mem_eraseDups, pairwise_idxOf_eraseDups all⟩

/-! ## Rows -/

/-- The cell of a record under a key: that of the first entry, empty without one. -/
inductive CellOf (record : Mapping) (key : Text) : Text → Prop
  | absent (h : record.entry? key = none) : CellOf record key []
  | scalar {value : Scalar} {position : Option Position}
      (h : record.entry? key = some (.scalar value position)) :
      CellOf record key (Cell.render value)

/-- The rows of a section before they are filled up: a header row with the distinct keys of
its records, and below it a row for every record in order, with an empty first cell. -/
inductive SectionTable (s : Section) : List (List Text) → Prop
  | mk {headers : List Text} {body : List (List Text)}
      (hheaders : FirstSeen (s.block.records.flatMap Mapping.keys) headers)
      (hbody : List.Forall₂ (fun record cells => List.Forall₂ (CellOf record) headers cells)
        s.block.records body) :
      SectionTable s (((Text.unit '#' :: s.keyword) :: headers) :: body.map ([] :: ·))

/-- A row filled up with empty cells to a width. -/
def Filled (width : Nat) (row filled : List Text) : Prop :=
  ∃ n, filled = row ++ List.replicate n [] ∧ filled.length = width

/-- The table of a document: the rows of its sections in canonical order, filled up to the
larger of the wanted width and that of the widest header row. -/
inductive TableOf (document : Document) (wanted : Nat) : List (List Text) → Prop
  | mk {tables : List (List (List Text))} {width : Nat} {rows : List (List Text)}
      (hsections : List.Forall₂ SectionTable document.sections tables)
      (hwidth : IsGreatest
        {n | n = wanted ∨ ∃ table ∈ tables, ∃ header ∈ table.head?, n = header.length} width)
      (hrows : List.Forall₂ (Filled width) tables.flatten rows) :
      TableOf document wanted rows

/-- A cell that is made is empty or shows a scalar. -/
theorem cellOf_of_eq_ok {keyword key cell : Text} {record : Mapping}
    (h : cellOf keyword record key = .ok cell) : CellOf record key cell := by
  rw [cellOf] at h
  split at h
  · next hnone =>
    cases h
    exact .absent hnone
  · next hscalar =>
    cases h
    exact .scalar hscalar
  · cases h

/-- Every row is the empty cell in front of the record's own cells. The induction is over the
records and their rows side by side. -/
theorem exists_body {keyword : Text} {headers : List Text} {records : List Mapping}
    {rows : List (List Text)}
    (h : List.Forall₂ (fun record row => recordRow keyword headers record = .ok row) records rows) :
    ∃ body, rows = body.map ([] :: ·) ∧
      List.Forall₂ (fun record cells => List.Forall₂ (CellOf record) headers cells) records body := by
  induction h with
  | nil => exact ⟨[], rfl, .nil⟩
  | cons hrow _ ih =>
    obtain ⟨body, rfl, hbody⟩ := ih
    rw [recordRow] at hrow
    obtain ⟨cells, hcells, hrow⟩ := bind_eq_ok_iff.mp hrow
    cases hrow
    refine ⟨cells :: body, rfl, .cons ?_ hbody⟩
    exact (forall₂_of_mapM_eq_ok hcells).imp fun _ _ => cellOf_of_eq_ok

/-- The rows of a section are its table: the header row holds the distinct keys, and each
record has made its row. -/
theorem sectionTable_of_eq_ok {s : Section} {rows : List (List Text)}
    (h : sectionRows s = .ok rows) : SectionTable s rows ∧ rows.head? = some (headerRow s) := by
  rw [sectionRows] at h
  obtain ⟨rows', hrows, h⟩ := bind_eq_ok_iff.mp h
  cases h
  obtain ⟨body, rfl, hbody⟩ := exists_body (forall₂_of_mapM_eq_ok hrows)
  exact ⟨.mk (headersOf_eq s.block.records ▸ firstSeen_eraseDups _) hbody, rfl⟩

/-- The rows of a section are as long as its header row, as a record has one cell below each
header and an empty one in front. -/
theorem SectionTable.length_eq {s : Section} {rows : List (List Text)} (h : SectionTable s rows)
    {header row : List Text} (hheader : header ∈ rows.head?) (hrow : row ∈ rows) :
    row.length = header.length := by
  obtain ⟨-, hbody⟩ := h
  cases hheader
  rcases List.mem_cons.mp hrow with rfl | hrow
  · rfl
  · obtain ⟨cells, hcells, rfl⟩ := List.mem_map.mp hrow
    obtain ⟨record, -, hcells⟩ := exists_origin hbody hcells
    rw [List.length_cons, List.length_cons, hcells.length_eq]

theorem filled_padRow {width : Nat} {row : List Text} (h : row.length ≤ width) :
    Filled width row (padRow width row) := by
  refine ⟨width - row.length, rfl, ?_⟩
  rw [padRow, List.length_append, List.length_replicate]
  omega

/-! ## The width -/

/-- The running maximum is the largest of all numbers and of the one to start with. The
induction is on the numbers, with any number to start with. -/
theorem isGreatest_foldl_max (ns : List Nat) (start : Nat) :
    IsGreatest {n | n = start ∨ n ∈ ns} (ns.foldl max start) := by
  induction ns generalizing start with
  | nil =>
    refine ⟨.inl rfl, ?_⟩
    rintro n (rfl | hn)
    · exact Nat.le_refl n
    · cases hn
  | cons m ns ih =>
    obtain ⟨hmem, hle⟩ := ih (max start m)
    have hstart : max start m ≤ ns.foldl max (max start m) := hle (.inl rfl)
    constructor
    · rcases hmem with hmax | hmem
      · rcases Nat.le_total start m with hcase | hcase
        · exact .inr (List.mem_cons.mpr (.inl (hmax.trans (Nat.max_eq_right hcase))))
        · exact .inl (hmax.trans (Nat.max_eq_left hcase))
      · exact .inr (List.mem_cons_of_mem m hmem)
    · rintro n (rfl | hn)
      · exact Nat.le_trans (Nat.le_max_left _ _) hstart
      · rcases List.mem_cons.mp hn with rfl | hn
        · exact Nat.le_trans (Nat.le_max_right _ _) hstart
        · exact hle (.inr hn)

/-- The width of all rows is the larger of the wanted one and that of the widest header row. -/
theorem isGreatest_widthOf (sections : List Section) (wanted : Nat) :
    IsGreatest {n | n = wanted ∨ ∃ s ∈ sections, n = (headerRow s).length}
      (widthOf sections wanted) := by
  obtain ⟨hmem, hle⟩ := isGreatest_foldl_max (sections.map fun s => (headerRow s).length) wanted
  rw [List.foldl_map] at hmem hle
  constructor
  · refine hmem.imp_right fun hmem => ?_
    obtain ⟨s, hs, hlength⟩ := List.mem_map.mp hmem
    exact ⟨s, hs, hlength.symm⟩
  · rintro n (rfl | ⟨s, hs, rfl⟩)
    · exact hle (.inl rfl)
    · exact hle (.inr (List.mem_map_of_mem hs))

/-! ## The table of a document -/

/-- In a section with the keyword, the first entry of a record under the key is no scalar. -/
def HoldsNested (document : Document) (e : NestedValue) : Prop :=
  ∃ s ∈ document.sections, s.keyword = e.keyword ∧ ∃ record ∈ s.block.records,
    ∃ node, record.entry? e.key = some node ∧ node.isScalar = false

/-- The reason why a document is not written is a value in it. The error is followed from the
document to the section, to the record and to the cell that failed. -/
theorem holdsNested_of_error {document : Document} {wanted : Nat} {e : NestedValue}
    (h : ofDocument document wanted = .error e) : HoldsNested document e := by
  -- an error comes from one section, one record of it and one key
  rw [ofDocument] at h
  rcases bind_eq_error_iff.mp h with h | ⟨_, -, h⟩
  · obtain ⟨s, hs, h⟩ := exists_of_mapM_eq_error h
    rw [sectionRows] at h
    rcases bind_eq_error_iff.mp h with h | ⟨_, -, h⟩
    · obtain ⟨record, hrecord, h⟩ := exists_of_mapM_eq_error h
      rw [recordRow] at h
      rcases bind_eq_error_iff.mp h with h | ⟨_, -, h⟩
      · obtain ⟨key, -, h⟩ := exists_of_mapM_eq_error h
        rw [cellOf] at h
        split at h
        · cases h
        · cases h
        · next node hnested hentry =>
          cases h
          refine ⟨s, hs, rfl, record, hrecord, node, hentry, ?_⟩
          -- a value that is no scalar is a list or a mapping
          cases node with
          | scalar value position => exact absurd rfl (hnested value position)
          | list items position => rfl
          | mapping entries position => rfl
      · cases h
    · cases h
  · cases h

/-- A document that is written has scalars in all its cells. A nested value would have a cell
of its own below its key, and that cell could not have been made. -/
theorem not_holdsNested_of_ok {document : Document} {tables : List (List (List Text))}
    (h : document.sections.mapM sectionRows = .ok tables) (e : NestedValue) :
    ¬ HoldsNested document e := by
  rintro ⟨s, hs, -, record, hrecord, node, hentry, hnested⟩
  obtain ⟨rows, -, hrows⟩ := exists_partner (forall₂_of_mapM_eq_ok h) hs
  rw [sectionRows] at hrows
  obtain ⟨_, hrows, -⟩ := bind_eq_ok_iff.mp hrows
  obtain ⟨row, -, hrow⟩ := exists_partner (forall₂_of_mapM_eq_ok hrows) hrecord
  rw [recordRow] at hrow
  obtain ⟨_, hcells, -⟩ := bind_eq_ok_iff.mp hrow
  have hkey : e.key ∈ headersOf s.block.records := by
    obtain ⟨entry, hmem, hname, -⟩ := Mapping.mem_of_entry? hentry
    exact mem_headersOf.mpr ⟨record, hrecord, List.mem_map.mpr ⟨entry, hmem, hname⟩⟩
  obtain ⟨cell, -, hcell⟩ := exists_partner (forall₂_of_mapM_eq_ok hcells) hkey
  cases cellOf_of_eq_ok hcell with
  | absent hnone =>
    rw [hnone] at hentry
    cases hentry
  | scalar hscalar =>
    rw [hscalar] at hentry
    cases hentry
    cases hnested

/-- What is written is the table of the document. The rows of a section are as long as its
header row, and no header row is longer than the width. -/
theorem tableOf_of_mapM {document : Document} (wanted : Nat) {tables : List (List (List Text))}
    (h : document.sections.mapM sectionRows = .ok tables) :
    TableOf document wanted (tables.flatten.map (padRow (widthOf document.sections wanted))) := by
  have hsections : List.Forall₂ (fun s rows => SectionTable s rows ∧ rows.head? = some (headerRow s))
      document.sections tables :=
    (forall₂_of_mapM_eq_ok h).imp fun _ _ => sectionTable_of_eq_ok
  have hwidths : ∀ n, (∃ table ∈ tables, ∃ header ∈ table.head?, n = header.length)
      ↔ ∃ s ∈ document.sections, n = (headerRow s).length := by
    intro n
    constructor
    · rintro ⟨table, htable, header, hheader, rfl⟩
      obtain ⟨s, hs, -, hhead⟩ := exists_origin hsections htable
      rw [hhead, Option.mem_some_iff] at hheader
      exact ⟨s, hs, by rw [hheader]⟩
    · rintro ⟨s, hs, rfl⟩
      obtain ⟨table, htable, -, hhead⟩ := exists_partner hsections hs
      exact ⟨table, htable, headerRow s, hhead, rfl⟩
  have hgreatest := isGreatest_widthOf document.sections wanted
  simp only [← hwidths] at hgreatest
  refine .mk (hsections.imp fun _ _ => And.left) hgreatest ?_
  -- no row is longer than the header row of its section
  rw [List.forall₂_map_right_iff, List.forall₂_same]
  intro row hrow
  obtain ⟨table, htable, hrow⟩ := List.mem_flatten.mp hrow
  obtain ⟨s, -, hrows, hhead⟩ := exists_origin hsections htable
  refine filled_padRow ?_
  rw [hrows.length_eq hhead hrow]
  exact hgreatest.2 (.inr ⟨table, htable, headerRow s, hhead, rfl⟩)

/-- Every section has a header row, so there is a row as soon as there is a section. -/
theorem TableOf.eq_nil_iff {document : Document} {wanted : Nat} {rows : List (List Text)}
    (h : TableOf document wanted rows) : rows = [] ↔ document.entries = [] := by
  obtain ⟨hsections, -, hrows⟩ := h
  rw [← List.length_eq_zero_iff, ← List.length_eq_zero_iff, ← hrows.length_eq, ← length_sections]
  generalize document.sections = sections at hsections
  cases hsections with
  | nil => rfl
  | cons hfirst _ =>
    cases hfirst
    simp

/-- A document is not written exactly if the first entry of a record under one of its keys is
no scalar. Otherwise its text is a table with every row ended by a line feed: no row without
a section, else section by section in canonical order a header row with the distinct keys in
order of first occurrence and a row per record, all filled up to the larger of the wanted
width and that of the widest header row. -/
theorem render_emits (document : Document) (wanted : Nat) :
    ((∃ e, render document wanted = .error e) ↔ ∃ e, HoldsNested document e)
      ∧ ((∃ e, HoldsNested document e) ∨ ∃ rows, TableOf document wanted rows
        ∧ (rows = [] ↔ document.entries = [])
        ∧ render document wanted = .ok (endLines (rows.map Row.write))) := by
  cases h : document.sections.mapM sectionRows with
  | error e =>
    have herror : ofDocument document wanted = .error e := by rw [ofDocument, h]; rfl
    have hnested : ∃ e, HoldsNested document e := ⟨e, holdsNested_of_error herror⟩
    refine ⟨⟨fun _ => hnested, fun _ => ⟨e, ?_⟩⟩, .inl hnested⟩
    rw [render, herror]
    rfl
  | ok tables =>
    have htable := tableOf_of_mapM wanted h
    have hok : ofDocument document wanted
        = .ok (tables.flatten.map (padRow (widthOf document.sections wanted))) := by
      rw [ofDocument, h]
      rfl
    have hrender := render_of_ofDocument hok
    refine ⟨⟨?_, ?_⟩, .inr ⟨_, htable, htable.eq_nil_iff, hrender⟩⟩
    · rintro ⟨e, he⟩
      rw [hrender] at he
      cases he
    · rintro ⟨e, he⟩
      exact absurd he (not_holdsNested_of_ok h e)

end MetadataBlock.Table
