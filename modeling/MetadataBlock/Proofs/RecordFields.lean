import Mathlib.Data.List.Forall2
import Mathlib.Data.List.Nodup
import MetadataBlock.Document.Plain

/-!
# Records without positions

Rules and tables look at a record through its keys and their first scalars, so the
fields of a record, its entries without positions, decide what they see. Two
documents are equal if their sections hold records with equal fields.

- `Mapping.fields`: the entries of a record without positions;
- `Mapping.keys_eq`, `Mapping.scalar?_eq`: what is looked up in a record, in terms
  of its fields;
- `Node.HoldsRecords`: lists of mappings;
- `SameField`, `same_of_fields`, `same_of_entries`: equality of records and of
  documents.
-/

namespace MetadataBlock

/-- The scalar that a node is. -/
def Node.scalar? : Node → Option Scalar
  | .scalar value _ => some value
  | _ => none

theorem Node.isScalar_iff {n : Node} : n.isScalar = true ↔ ∃ v, n.scalar? = some v := by
  cases n with
  | scalar value position => exact ⟨fun _ => ⟨value, rfl⟩, fun _ => rfl⟩
  | list items position => exact ⟨fun h => (nomatch h), fun ⟨_, h⟩ => (nomatch h)⟩
  | mapping entries position => exact ⟨fun h => (nomatch h), fun ⟨_, h⟩ => (nomatch h)⟩

namespace Mapping

/-- The entries of a record without positions. Of a nested value only the key is kept. -/
def fields (m : Mapping) : List (Text × Option Scalar) :=
  m.entries.map fun e => (e.key, e.value.scalar?)

theorem keys_eq (m : Mapping) : m.keys = m.fields.map (·.1) := by
  rw [keys, fields, List.map_map]
  rfl

theorem entry?_eq_some_iff {m : Mapping} {key : Text} {node : Node} :
    m.entry? key = some node ↔ ∃ e, m.entries.find? (·.key == key) = some e ∧ e.value = node := by
  rw [Mapping.entry?, Option.map_eq_some_iff]

theorem key_of_find? {entries : List Entry} {key : Text} {e : Entry}
    (h : entries.find? (·.key == key) = some e) : e.key = key := by
  have hkey := List.find?_some h
  exact beq_iff_eq.mp hkey

theorem mem_of_entry? {m : Mapping} {key : Text} {node : Node} (h : m.entry? key = some node) :
    ∃ e ∈ m.entries, e.key = key ∧ e.value = node := by
  obtain ⟨e, hfind, hnode⟩ := entry?_eq_some_iff.mp h
  exact ⟨e, List.mem_of_find?_eq_some hfind, key_of_find? hfind, hnode⟩

/-- Nothing is found under a key that no entry has. -/
theorem isNone_entry?_iff {m : Mapping} {key : Text} :
    (m.entry? key).isNone = true ↔ key ∉ m.keys := by
  rw [Mapping.entry?, Option.isNone_map, Option.isNone_iff_eq_none, List.find?_eq_none, keys, List.mem_map]
  constructor
  · rintro h ⟨e, he, hkey⟩
    exact h e he (beq_iff_eq.mpr hkey)
  · intro h e he hkey
    exact h ⟨e, he, beq_iff_eq.mp hkey⟩

theorem scalar?_eq_bind (m : Mapping) (key : Text) :
    m.scalar? key = (m.entry? key).bind Node.scalar? := by
  rw [scalar?, scalarAt?]
  cases m.entry? key with
  | none => rfl
  | some node => cases node <;> rfl

/-- The first field under a key decides. A nested value hides what stands behind it under the
same key. -/
theorem scalar?_eq (m : Mapping) (key : Text) :
    m.scalar? key = (m.fields.find? (·.1 == key)).bind (·.2) := by
  rw [scalar?_eq_bind, fields, List.find?_map, Mapping.entry?, Option.bind_map, Option.bind_map]
  rfl

/-- A key that stands once in a record leads to its own value. -/
theorem scalar?_of_nodup {m : Mapping} (h : m.keys.Nodup) {e : Entry} (he : e ∈ m.entries) :
    m.scalar? e.key = e.value.scalar? := by
  rw [scalar?_eq_bind, Mapping.entry?]
  cases hfind : m.entries.find? (·.key == e.key) with
  | none => exact absurd (beq_self_eq_true e.key) (List.find?_eq_none.mp hfind e he)
  | some e' =>
    rw [List.inj_on_of_nodup_map h (List.mem_of_find?_eq_some hfind) he (key_of_find? hfind)]
    rfl

end Mapping

/-! ## Lists of records -/

/-- The node is a list, and its items are mappings. -/
def Node.HoldsRecords (n : Node) : Prop :=
  ∃ (records : List Mapping) (position : Option Position),
    n = .list (records.map Mapping.toNode) position

theorem records_list (records : List Mapping) (position : Option Position) :
    (Node.list (records.map Mapping.toNode) position).records = records := by
  rw [Node.records, List.filterMap_map]
  exact List.filterMap_some

/-- A list of records is the list of those that are found in it. -/
theorem Node.HoldsRecords.eq_list {n : Node} (h : n.HoldsRecords) :
    ∃ position, n = .list (n.records.map Mapping.toNode) position := by
  obtain ⟨records, position, rfl⟩ := h
  exact ⟨position, by rw [records_list]⟩

/-! ## Equality -/

/-- Two fields with one key and equal scalars. -/
inductive SameField : Text × Option Scalar → Text × Option Scalar → Prop where
  | mk {key : Text} {v v' : Scalar} (h : v.same v' = true) : SameField (key, some v) (key, some v')

/-- Two entries with one key and equal values. -/
def SameEntry (e e' : Entry) : Prop :=
  e.key = e'.key ∧ e.value.same e'.value = true

theorem sameEntries_of_forall₂ {as bs : List Entry} (h : List.Forall₂ SameEntry as bs) :
    Node.sameEntries as bs = true := by
  induction h with
  | nil => rfl
  | @cons a b as bs hab _ ih =>
    obtain ⟨key, value, p⟩ := a
    obtain ⟨key', value', p'⟩ := b
    obtain ⟨hkey, hvalue⟩ : key = key' ∧ value.same value' = true := hab
    rw [Node.sameEntries, hkey, beq_self_eq_true, hvalue, ih]
    rfl

theorem sameItems_of_forall₂ {as bs : List Node}
    (h : List.Forall₂ (fun a b => a.same b = true) as bs) : Node.sameItems as bs = true := by
  induction h with
  | nil => rfl
  | @cons a b as bs hab _ ih =>
    show (a.same b && Node.sameItems as bs) = true
    rw [hab, ih]
    rfl

/-- Records with equal fields are equal. A field that holds a scalar is an entry with that
scalar, so no nested value has to be compared. -/
theorem same_of_fields {r r' : Mapping} (h : List.Forall₂ SameField r.fields r'.fields) :
    r.toNode.same r'.toNode = true := by
  refine sameEntries_of_forall₂ ?_
  rw [Mapping.fields, Mapping.fields, List.forall₂_map_left_iff, List.forall₂_map_right_iff] at h
  refine h.imp fun e e' hsame => ?_
  obtain ⟨key, value, p⟩ := e
  obtain ⟨key', value', p'⟩ := e'
  cases value with
  | scalar v position =>
    cases value' with
    | scalar v' position' =>
      cases hsame with
      | mk hv => exact ⟨rfl, hv⟩
    | list items position' => nomatch hsame
    | mapping entries position' => nomatch hsame
  | list items position => nomatch hsame
  | mapping entries position => nomatch hsame

/-- Lists of records with equal fields are equal. -/
theorem same_of_records {records records' : List Mapping} {position position' : Option Position}
    (h : List.Forall₂ (fun r r' => List.Forall₂ SameField r.fields r'.fields) records records') :
    (Node.list (records.map Mapping.toNode) position).same
      (.list (records'.map Mapping.toNode) position') = true := by
  refine sameItems_of_forall₂ ?_
  rw [List.forall₂_map_left_iff, List.forall₂_map_right_iff]
  exact h.imp fun r r' => same_of_fields

/-- Documents with equal entries are equal. -/
theorem same_of_entries {d d' : Document} (h : List.Forall₂ SameEntry d.entries d'.entries) :
    d.toNode.same d'.toNode = true :=
  sameEntries_of_forall₂ h

end MetadataBlock
