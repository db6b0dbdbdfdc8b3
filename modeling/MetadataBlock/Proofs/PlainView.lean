import MetadataBlock.Proofs.Provenance

/-!
# The plain view agrees with the look-up of keys

A mapping is a list of entries whose keys may repeat, its plain view an object with one field
for every name. A key that is looked up in either leads to the same value: the first one. The
reserved key is the exception, since it does not become a field at first.

- `firstFields_concat`, `nodup_firstFields`, `field?_firstFields`: the first field of every name;
- `field?_plainEntries`: the fields of the entries, with the key that is not reserved;
- `jsonFields_of_present`: the texts of the fields;
- `PlainView`: an object with the fields in which the text of the mapping is written;
- `ShowsKey`, `showsKey_iff`: the keys that are shown.
-/

namespace MetadataBlock

/-! ## The first field of every name -/

/-- A field is taken unless its name was seen before. -/
theorem firstFields_concat (fields : List (Text × Data)) (f : Text × Data) :
    firstFields (fields ++ [f])
      = if (firstFields fields).any (·.1 == f.1) then firstFields fields
        else firstFields fields ++ [f] := by
  rw [firstFields, List.foldl_concat]
  rfl

theorem any_name_iff {fields : List (Text × Data)} {name : Text} :
    fields.any (·.1 == name) = true ↔ name ∈ fields.map (·.1) := by
  rw [List.any_eq_true, List.mem_map]
  exact exists_congr fun f => and_congr_right fun _ => beq_iff_eq

/-- No name is left twice. -/
theorem nodup_firstFields (fields : List (Text × Data)) :
    ((firstFields fields).map (·.1)).Nodup := by
  induction fields using List.reverseRecOn with
  | nil => exact List.nodup_nil
  | append_singleton fields f ih =>
    rw [firstFields_concat]
    split
    · exact ih
    · next hnew =>
      rw [any_name_iff] at hnew
      rw [List.map_append, List.nodup_append]
      refine ⟨ih, List.nodup_singleton _, ?_⟩
      rintro name hname last hlast rfl
      rw [List.mem_singleton.mp hlast] at hname
      exact hnew hname

theorem isSome_field?_iff {fields : List (Text × Data)} {name : Text} :
    (Data.field? fields name).isSome = true ↔ name ∈ fields.map (·.1) := by
  rw [Data.field?, Option.isSome_map, List.find?_isSome, List.mem_map]
  exact exists_congr fun f => and_congr_right fun _ => beq_iff_eq

theorem field?_concat (fields : List (Text × Data)) (f : Text × Data) (name : Text) :
    Data.field? (fields ++ [f]) name
      = (Data.field? fields name).or (if f.1 = name then some f.2 else none) := by
  rw [Data.field?, Data.field?, List.find?_append, List.find?_singleton, Option.map_or]
  by_cases hname : f.1 = name
  · rw [if_pos (beq_iff_eq.mpr hname), if_pos hname]
    rfl
  · rw [if_neg (beq_iff_eq.not.mpr hname), if_neg hname]
    rfl

/-- What is found under a name is the first field, and leaving later ones out does not change
it. -/
theorem field?_firstFields (fields : List (Text × Data)) (name : Text) :
    Data.field? (firstFields fields) name = Data.field? fields name := by
  induction fields using List.reverseRecOn with
  | nil => rfl
  | append_singleton fields f ih =>
    rw [firstFields_concat, field?_concat, ← ih]
    split
    · next hold =>
      rw [any_name_iff, ← isSome_field?_iff] at hold
      by_cases hname : f.1 = name
      · obtain ⟨d, hd⟩ := Option.isSome_iff_exists.mp hold
        rw [hname] at hd
        rw [hd, Option.some_or]
      · rw [if_neg hname, Option.or_none]
    · rw [field?_concat]

/-- Where no name occurs twice, a field is what is found under its name. -/
theorem mem_iff_field? {fields : List (Text × Data)} (h : (fields.map (·.1)).Nodup) {name : Text}
    {d : Data} : (name, d) ∈ fields ↔ Data.field? fields name = some d := by
  rw [Data.field?, Option.map_eq_some_iff]
  constructor
  · intro hmem
    exact ⟨(name, d), (find?_eq_some_iff_of_nodup h).mpr ⟨hmem, rfl⟩, rfl⟩
  · rintro ⟨f, hfind, rfl⟩
    obtain ⟨hmem, rfl⟩ := (find?_eq_some_iff_of_nodup h).mp hfind
    exact hmem

/-! ## The fields of the entries -/

/-- The entries under a key that is not reserved are all fields. Under the reserved key an
entry is a field only where nothing stands behind the object, and replaces what stands there
otherwise. -/
theorem field?_plainEntries {key : Text} : ∀ (alone : Bool) {entries : List Entry},
    (∀ e ∈ entries, e.key = key → key ≠ reservedKey) →
      Data.field? (Node.plainEntries alone entries) key
        = (entries.find? (·.key == key)).map fun e => e.value.plain
  | _, [], _ => rfl
  | alone, ⟨key', value, position⟩ :: rest, h => by
    rw [List.forall_mem_cons] at h
    rw [Node.plainEntries, List.find?_cons]
    by_cases hkey : key' = key
    · have hreserved : (key' == reservedKey) = false := by
        rw [hkey]
        exact beq_false_of_ne (h.1 hkey)
      rw [hreserved, Bool.false_and, if_neg Bool.false_ne_true, hkey]
      simp [Data.field?]
    · have hother : (key' == key) = false := beq_false_of_ne hkey
      simp only [hother]
      split
      · exact field?_plainEntries _ h.2
      · rw [← field?_plainEntries alone h.2]
        simp [Data.field?, hother]

/-- The plain value of an entry is never absent. -/
theorem isPresent_of_mem_plainEntries {f : Text × Data} : ∀ {alone : Bool} {entries : List Entry},
    f ∈ Node.plainEntries alone entries → f.2.isPresent = true
  | _, [], h => nomatch h
  | alone, ⟨key, value, position⟩ :: rest, h => by
    rw [Node.plainEntries] at h
    split at h
    · exact isPresent_of_mem_plainEntries h
    · rcases List.mem_cons.mp h with rfl | h
      · exact value.isPresent_plain
      · exact isPresent_of_mem_plainEntries h

theorem firstFields_subset (fields : List (Text × Data)) : firstFields fields ⊆ fields := by
  induction fields using List.reverseRecOn with
  | nil => exact List.Subset.refl _
  | append_singleton fields f ih =>
    rw [firstFields_concat]
    split
    · exact List.subset_append_of_subset_left [f] ih
    · exact List.append_subset.mpr
        ⟨List.subset_append_of_subset_left [f] ih, List.subset_append_right fields [f]⟩

/-- No field is left out of the text if none is absent. -/
theorem jsonFields_of_present {fields : List (Text × Data)}
    (h : ∀ f ∈ fields, f.2.isPresent = true) :
    Data.jsonFields fields = fields.map fun f => (f.1, f.2.json) := by
  induction fields with
  | nil => rfl
  | cons f fields ih =>
    obtain ⟨hfirst, hrest⟩ := List.forall_mem_cons.mp h
    rw [jsonFields_cons hfirst, ih hrest, List.map_cons]

/-! ## The view and its text -/

/-- The text of an object with the texts of its members. -/
def objectText (members : List (Text × Text)) : Text :=
  "\x7b" ++ Text.joinWith "," (members.map fun m => Json.string m.1 ++ ":" ++ m.2) ++ "\x7d"

/-- The plain view of a mapping is an object with some fields, one for each name, and the text
of the mapping has a member for each of them. -/
structure PlainView (m : Mapping) (fields : List (Text × Data)) (members : List (Text × Text)) :
    Prop where
  plain_eq : m.toNode.plain = .object fields
  nodup : (fields.map (·.1)).Nodup
  format_eq : m.toNode.format = objectText members
  perm : members.Perm (fields.map fun f => (f.1, f.2.json))

/-- Every mapping has a plain view. Its text lists the fields in the order of an object, which
puts names that are indices first. -/
theorem plainView (m : Mapping) :
    PlainView m (firstFields (Node.plainEntries false m.entries))
      (Json.orderFields ((firstFields (Node.plainEntries false m.entries)).map
        fun f => (f.1, f.2.json))) where
  plain_eq := rfl
  nodup := nodup_firstFields _
  format_eq := by
    rw [Node.format, Mapping.toNode, Node.plain, Data.json, jsonFields_of_present]
    · rfl
    · exact fun f hf => isPresent_of_mem_plainEntries (firstFields_subset _ hf)
  perm := Json.perm_orderFields _

/-- The plain view agrees with the look-up of a key: it has a field of that name if and only if
the mapping has an entry, with the plain value of the first one, and so has the text. -/
def ShowsKey (m : Mapping) (key : Text) : Prop :=
  ∃ fields members, PlainView m fields members
    ∧ Data.field? fields key = (m.entry? key).map Node.plain
    ∧ ∀ text, (key, text) ∈ members ↔ ∃ v, m.entry? key = some v ∧ v.format = text

/-- A mapping shows a key unless it has an entry under the reserved one. -/
theorem showsKey_of_not_reserved {m : Mapping} {key : Text}
    (h : ∀ e ∈ m.entries, e.key = key → key ≠ reservedKey) : ShowsKey m key := by
  have hview := plainView m
  have hfield : Data.field? (firstFields (Node.plainEntries false m.entries)) key
      = (m.entry? key).map Node.plain := by
    rw [field?_firstFields, field?_plainEntries false h, Mapping.entry?, Option.map_map]
    rfl
  refine ⟨_, _, hview, hfield, fun text => ?_⟩
  rw [hview.perm.mem_iff, List.mem_map]
  constructor
  · rintro ⟨⟨name, d⟩, hmem, heq⟩
    cases heq
    rw [mem_iff_field? hview.nodup, hfield, Option.map_eq_some_iff] at hmem
    obtain ⟨v, hv, rfl⟩ := hmem
    exact ⟨v, hv, rfl⟩
  · rintro ⟨v, hv, rfl⟩
    refine ⟨(key, v.plain), ?_, rfl⟩
    rw [mem_iff_field? hview.nodup, hfield, hv]
    rfl

/-- A mapping with one entry, under the reserved key. -/
def reservedMapping : Mapping :=
  ⟨[⟨reservedKey, .scalar (.text "x") none, none⟩], none⟩

/-- An entry under the reserved key is found by its look-up and shown nowhere. -/
theorem not_showsKey_reservedMapping : ¬ ShowsKey reservedMapping reservedKey := by
  rintro ⟨fields, members, hview, hfield, -⟩
  cases hview.plain_eq
  cases hfield

/-- Every key other than the reserved one is shown in every mapping, at whatever depth it
stands. The reserved key agrees with its look-up at least where it has no entry. -/
theorem showsKey_iff (key : Text) :
    ((∀ m : Mapping, ShowsKey m key) ↔ key ≠ reservedKey)
      ∧ ∀ m : Mapping, m.entry? key = none → ShowsKey m key := by
  refine ⟨⟨?_, ?_⟩, ?_⟩
  · rintro hall rfl
    exact not_showsKey_reservedMapping (hall reservedMapping)
  · intro hkey m
    exact showsKey_of_not_reserved fun _ _ _ => hkey
  · intro m hnone
    refine showsKey_of_not_reserved fun e he hkey => ?_
    rw [Mapping.entry?, Option.map_eq_none_iff, List.find?_eq_none] at hnone
    exact absurd (beq_iff_eq.mpr hkey) (hnone e he)

/-- The first of two entries is shown, and nothing under a key without one. -/
theorem showsKey_iff_repeatedKey :
    ShowsKey ⟨[⟨"name", .scalar (.text "a") none, none⟩,
        ⟨"name", .scalar (.text "b") none, none⟩], none⟩ "name"
      ∧ ShowsKey reservedMapping "name" :=
  ⟨(showsKey_iff "name").1.mpr (by decide) _, (showsKey_iff "name").2 _ (by decide)⟩

/-- The entry is there, and the text shows nothing of it. -/
theorem reservedMapping_hidden :
    (reservedMapping.entry? reservedKey).isSome = true
      ∧ reservedMapping.toNode.format = "\x7b\x7d" ∧ ¬ ShowsKey reservedMapping reservedKey :=
  ⟨by decide, by decide +kernel, not_showsKey_reservedMapping⟩

end MetadataBlock
