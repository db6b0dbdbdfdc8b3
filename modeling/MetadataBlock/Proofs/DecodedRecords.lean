import MetadataBlock.Proofs.CellDecoding
import MetadataBlock.Proofs.ErrorRules
import MetadataBlock.Proofs.ReadBack

/-!
# Records after decoding

A record that was written and read back holds the values that its cells decode to.
The rules on names, titles and nested fields see a record only through the texts
and the truth values under its keys.

- `Mapping.decoded`: the record with every value decoded from its cell;
- `ReadsAlike`: records that these rules cannot tell apart;
- `readsAlike_of_fields`, `readsAlike_decoded`: a record that was read is like the
  decoded one, and a record whose values come from cells is like itself decoded;
- `titleWithParent?_of_decoded`: blank texts come from the same texts.
-/

namespace MetadataBlock

open BlockRules (parent? titleWithParent?)
open RecordRules (NestedVocabulary)

/-! ## Decoding -/

/-- A scalar as its cell is decoded; other nodes as they are. -/
def Node.decoded : Node → Node
  | .scalar value position => .scalar (Cell.decoded value) position
  | n => n

namespace Mapping

/-- The record with every value decoded from its cell. -/
def decoded (m : Mapping) : Mapping :=
  ⟨m.entries.map fun e => { e with value := e.value.decoded }, m.position⟩

/-- Decoding a record keeps its keys, so a scalar is looked up in the same entry. -/
theorem scalar?_decoded (m : Mapping) (key : Text) :
    m.decoded.scalar? key = (m.scalar? key).map Cell.decoded := by
  have hfind : m.decoded.entry? key = (m.entry? key).map Node.decoded := by
    rw [Mapping.entry?, Mapping.entry?, decoded, List.find?_map, Option.map_map, Option.map_map]
    rfl
  rw [scalar?_eq_bind, scalar?_eq_bind, hfind]
  cases m.entry? key with
  | none => rfl
  | some node => cases node <;> rfl

theorem mem_keys_of_scalar? {m : Mapping} {key : Text} {v : Scalar} (h : m.scalar? key = some v) :
    key ∈ m.keys := by
  by_contra hkey
  have hnone : m.entry? key = none :=
    Option.isNone_iff_eq_none.mp (isNone_entry?_iff.mpr hkey)
  rw [scalar?_eq_bind, hnone] at h
  cases h

end Mapping

/-! ## Records that read alike -/

/-- The records have the same texts and the same truth values under all keys. -/
structure ReadsAlike (r r' : Mapping) : Prop where
  texts : ∀ key, r.text? key = r'.text? key
  bools : ∀ key b, r.scalar? key = some (.bool b) ↔ r'.scalar? key = some (.bool b)

section

variable {r r' : Mapping} (h : ReadsAlike r r')

include h

theorem ReadsAlike.parent?_eq : parent? r = parent? r' := by
  rw [parent?, parent?, h.texts]

theorem ReadsAlike.titleWithParent?_eq : titleWithParent? r = titleWithParent? r' := by
  rw [titleWithParent?, titleWithParent?, h.texts, h.parent?_eq]

theorem ReadsAlike.nestedVocabulary_iff : NestedVocabulary r ↔ NestedVocabulary r' := by
  rw [NestedVocabulary, NestedVocabulary, h.parent?_eq, h.bools, h.bools]

end

/-- A record that was read is like the one that was written, decoded. A header without an entry
reads as null, which is no text and no truth value; under every other header the cell is that
of the first entry on both sides. -/
theorem readsAlike_of_fields {headers : List Text} {r r' : Mapping}
    (h : r'.fields = Table.rowFields headers r) (hkeys : ∀ key ∈ r.keys, key ∈ headers) :
    ReadsAlike r' r.decoded := by
  -- the two differ only below a header that the written record lacks
  have hscalar : ∀ key, r'.scalar? key = r.decoded.scalar? key
      ∨ (r'.scalar? key = some .null ∧ r.decoded.scalar? key = none) := by
    intro key
    rw [Table.scalar?_of_fields h, Mapping.scalar?_decoded, Table.cellText]
    cases hvalue : r.scalar? key with
    | none =>
      by_cases hheader : key ∈ headers
      · rw [if_pos hheader]
        exact .inr ⟨rfl, rfl⟩
      · rw [if_neg hheader]
        exact .inl rfl
    | some v =>
      rw [if_pos (hkeys key (Mapping.mem_keys_of_scalar? hvalue))]
      exact .inl rfl
  constructor
  · intro key
    rw [Mapping.text?, Mapping.text?]
    rcases hscalar key with heq | ⟨hnull, hnone⟩
    · rw [heq]
    · rw [hnull, hnone]
      rfl
  · intro key b
    rcases hscalar key with heq | ⟨hnull, hnone⟩
    · rw [heq]
    · rw [hnull, hnone]
      constructor
      · intro hbool
        cases hbool
      · intro hbool
        cases hbool

/-- A record whose values come from cells is like itself decoded, since decoding once more
changes neither how a value reads nor whether it is a truth value. -/
theorem readsAlike_decoded {r : Mapping}
    (h : ∀ key v, r.scalar? key = some v → ∃ cell, v = Cell.parse cell) :
    ReadsAlike r.decoded r := by
  constructor
  · intro key
    rw [Mapping.text?, Mapping.text?, Mapping.scalar?_decoded]
    cases hvalue : r.scalar? key with
    | none => rfl
    | some v =>
      obtain ⟨cell, rfl⟩ := h key v hvalue
      exact Cell.text?_decoded_parse cell
  · intro key b
    rw [Mapping.scalar?_decoded]
    cases hvalue : r.scalar? key with
    | none => rfl
    | some v =>
      obtain ⟨cell, rfl⟩ := h key v hvalue
      rw [Option.map_some, Option.some_inj, Option.some_inj]
      exact Cell.decoded_parse_eq_bool_iff

/-! ## Blank texts -/

theorem parent?_eq_some_iff {r : Mapping} {t : Text} :
    parent? r = some t ↔ r.text? "parent" = some t ∧ t ≠ [] := by
  rw [parent?, Option.filter_eq_some_iff]
  simp

/-- A blank text is only decoded from a value that reads as this text. -/
theorem text?_of_decoded {r : Mapping} {key t : Text} (h : r.decoded.text? key = some t)
    (hblank : Text.isAllBlank t = true) : r.text? key = some t := by
  rw [Mapping.text?, Mapping.scalar?_decoded] at h
  rw [Mapping.text?]
  cases hvalue : r.scalar? key with
  | none =>
    rw [hvalue] at h
    cases h
  | some v =>
    rw [hvalue] at h
    exact Cell.text?_of_decoded_blank h hblank

/-- A text that is not empty stays so. Its cell is not empty, and a cell that is not empty has
a text that is not empty. -/
theorem exists_decoded_text? {r : Mapping} {key t : Text} (h : r.text? key = some t)
    (hne : t ≠ []) : ∃ t', t' ≠ [] ∧ r.decoded.text? key = some t' := by
  rw [Mapping.text?, Option.bind_eq_some_iff] at h
  obtain ⟨v, hvalue, htext⟩ := h
  have hcell : Cell.render v ≠ [] := by
    cases v with
    | null => cases htext
    | bool b => cases b <;> decide
    | number n =>
      cases htext
      exact hne
    | text s =>
      cases htext
      exact hne
  rw [Mapping.text?, Mapping.scalar?_decoded, hvalue]
  exact Cell.exists_text?_parse hcell

/-- A parent that is blank or missing after decoding was so before: a blank text comes from the
same text, and a text that is not empty does not go missing. -/
theorem parent?_of_decoded {r : Mapping} {p : Option Text} (h : parent? r.decoded = p)
    (hblank : ∀ t ∈ p, Text.isAllBlank t = true) : parent? r = p := by
  cases p with
  | some t =>
    obtain ⟨htext, hne⟩ := parent?_eq_some_iff.mp h
    exact parent?_eq_some_iff.mpr ⟨text?_of_decoded htext (hblank t rfl), hne⟩
  | none =>
    by_contra hsome
    obtain ⟨t, ht⟩ := Option.ne_none_iff_exists'.mp hsome
    obtain ⟨htext, hne⟩ := parent?_eq_some_iff.mp ht
    obtain ⟨t', hne', htext'⟩ := exists_decoded_text? htext hne
    rw [parent?_eq_some_iff.mpr ⟨htext', hne'⟩] at h
    cases h

/-- A blank title below a blank parent, or below none, was the same before decoding. -/
theorem titleWithParent?_of_decoded {r : Mapping} {title : Text} {p : Option Text}
    (h : titleWithParent? r.decoded = some (title, p)) (htitle : Text.isAllBlank title = true)
    (hp : ∀ t ∈ p, Text.isAllBlank t = true) : titleWithParent? r = some (title, p) := by
  rw [titleWithParent?, Option.map_eq_some_iff] at h
  obtain ⟨t, htext, hpair⟩ := h
  obtain ⟨rfl, hparent⟩ := Prod.mk.inj hpair
  rw [titleWithParent?, text?_of_decoded htext htitle, parent?_of_decoded hparent hp]
  rfl

/-! ## Blank records -/

section

variable {r : Mapping} (h : ∀ key, Text.isAllBlank (Table.cellText r key) = true)

include h

/-- The texts of a record with blank cells are blank after decoding. -/
theorem isAllBlank_of_decoded_text? {key t : Text} (ht : r.decoded.text? key = some t) :
    Text.isAllBlank t = true := by
  have hcell := h key
  rw [Mapping.text?, Mapping.scalar?_decoded] at ht
  rw [Table.cellText] at hcell
  cases hvalue : r.scalar? key with
  | none =>
    rw [hvalue] at ht
    cases ht
  | some v =>
    rw [hvalue] at ht hcell
    exact Cell.isAllBlank_of_text?_parse hcell ht

theorem isAllBlank_of_decoded_parent? {t : Text} (ht : parent? r.decoded = some t) :
    Text.isAllBlank t = true := by
  exact isAllBlank_of_decoded_text? h (parent?_eq_some_iff.mp ht).1

/-- A record with blank cells holds no truth value, as the word for it is not blank. So no rule
on nesting looks at it. -/
theorem not_nestedVocabulary_decoded : ¬ NestedVocabulary r.decoded := by
  rintro ⟨-, hmultiple, -⟩
  have htext : r.decoded.text? "allowmultiples" = some (Text.ofString "true") := by
    rw [Mapping.text?, hmultiple]
    rfl
  exact absurd (isAllBlank_of_decoded_text? h htext) (by decide)

end

end MetadataBlock
