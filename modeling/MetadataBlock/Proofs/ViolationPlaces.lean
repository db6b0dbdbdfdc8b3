import MetadataBlock.Proofs.ErrorRules
import MetadataBlock.Proofs.NameClashes
import MetadataBlock.Proofs.Provenance
import MetadataBlock.Proofs.RuleReports
import MetadataBlock.Proofs.SectionOrder
import MetadataBlock.Proofs.TypoSuspicion

/-!
# Violations point into the document

Line and column of a violation are those of one position of the document, or both are
missing. Where a rule falls back from one position to another, it stays with the block or
the record that it looks at.

- `Violation.At`: line and column of a violation against a position;
- `BlockPlace`, `RecordPlace`: the positions of a block and its items, and of a record with
  its keys and values;
- `PointsInto`: a violation that is about a part of a document;
- `place_of_mem_isList` and its like: one lemma for each rule;
- `find?_firstByName`, `suspect_mem_names`: a suspected name leads back to the first record
  that has it;
- `pointsInto_of_mem_lintDocument`: all violations of a document.
-/

namespace MetadataBlock

/-- Line and column are those of a position, or both missing. -/
def Violation.At (v : Violation) (p : Option Position) : Prop :=
  v.line = p.map (·.line) ∧ v.column = p.bind (·.column)

/-- The positions of a block: its own and those of its items. -/
inductive BlockPlace : Node → Option Position → Prop where
  | block (n : Node) : BlockPlace n n.position
  | item {items : List Node} (position : Option Position) {item : Node} (h : item ∈ items) :
      BlockPlace (.list items position) item.position

/-- The positions of a record: its own, those of its keys and those of its values. -/
inductive RecordPlace : Mapping → Option Position → Prop where
  | record (r : Mapping) : RecordPlace r r.position
  | key {r : Mapping} {e : Entry} (h : e ∈ r.entries) : RecordPlace r e.keyPosition
  | value {r : Mapping} {e : Entry} (h : e ∈ r.entries) : RecordPlace r e.value.position

/-- A suspected name is reported at the first record that has it. The name is the one that
the message begins with, in quotes. -/
def AtSuspect (records : List Mapping) (v : Violation) : Prop :=
  ∃ (name stem : Text) (members : List Text) (record : Mapping),
    v.message = "Name '" ++ name ++ "' might contain a typo: its prefix is close to '" ++ stem
        ++ "' shared by " ++ List.intercalate (", " : Text) (members.map fun t => "'" ++ t ++ "'")
        ++ "."
      ∧ records.find? (·.text? "name" == some name) = some record ∧ v.At record.position

/-- A violation that is about a part of the document: the keywords, a block or a record. -/
inductive PointsInto (document : Document) (v : Violation) : Prop where
  | keywords {rule : Rule KeywordsInput} (hrule : rule ∈ Catalog.topLevelRules)
      (horigin : v.origin = .rule rule.name) (hat : v.At document.position)
  | block {rule : Rule BlockInput} {e : Entry} {p : Option Position}
      (hrule : rule ∈ Catalog.blockRules) (horigin : v.origin = .rule rule.name)
      (he : e ∈ document.entries) (hplace : BlockPlace e.value p) (hat : v.At p)
      (htypo : rule.name = .namePrefixTypos → AtSuspect e.value.records v)
  | record {rule : Rule RecordInput} {e : Entry} {r : Mapping} {p : Option Position}
      (hrule : rule ∈ Catalog.recordRules) (horigin : v.origin = .rule rule.name)
      (he : e ∈ document.entries) (hr : r ∈ e.value.records) (hplace : RecordPlace r p)
      (hat : v.At p)

theorem at_atPosition {severity : Severity} {origin : Origin} {message : Text}
    {p : Option Position} : (Violation.atPosition severity origin message p).At p :=
  ⟨rfl, rfl⟩

/-- A position with another one to fall back on is one of the two. -/
theorem RecordPlace.orElse {r : Mapping} {p q : Option Position} (hp : RecordPlace r p)
    (hq : RecordPlace r q) : RecordPlace r (p <|> q) := by
  cases p with
  | none => exact hq
  | some p => exact hp

/-- Records are items of their block. -/
theorem blockPlace_of_mem_records {block : Node} {r : Mapping} (h : r ∈ block.records) :
    BlockPlace block r.position := by
  cases block with
  | scalar | mapping => cases h
  | list items position =>
    obtain ⟨item, hitem, hr⟩ := List.mem_filterMap.mp h
    cases item with
    | scalar | list => cases hr
    | mapping entries p =>
      cases hr
      exact .item position hitem

/-! ## Rules on keywords -/

namespace KeywordRules

variable {severity : Severity} {input : KeywordsInput} {v : Violation}

theorem place_of_mem_valid (h : v ∈ valid.run severity input) : v.At input.position := by
  simp only [valid] at h
  split at h
  · cases h
  · rw [List.mem_singleton.mp h]
    exact at_atPosition

theorem place_of_mem_unique (h : v ∈ unique.run severity input) : v.At input.position := by
  simp only [unique] at h
  split at h
  · cases h
  · rw [List.mem_singleton.mp h]
    exact at_atPosition

/-- The rules on keywords report at the position of the document. -/
theorem place_of_mem_topLevelRules : ∀ rule ∈ Catalog.topLevelRules, v ∈ rule.run severity input →
    v.At input.position := by
  simp only [Catalog.topLevelRules, List.forall_mem_cons]
  exact ⟨place_of_mem_valid, place_of_mem_unique, List.forall_mem_nil _⟩

end KeywordRules

/-! ## Rules on blocks -/

namespace BlockRules

variable {severity : Severity} {input : BlockInput} {v : Violation}

/-- What is wrong with a block is reported at the block, and what is wrong with an item at the
item. -/
theorem place_of_mem_isList (h : v ∈ isList.run severity input) :
    ∃ p, BlockPlace input.block p ∧ v.At p := by
  obtain ⟨keyword, block, settings⟩ := input
  cases block with
  | scalar | mapping =>
    rw [List.mem_singleton.mp h]
    exact ⟨_, .block _, at_atPosition⟩
  | list items position =>
    obtain ⟨⟨item, place⟩, hitem, hv⟩ := List.mem_filterMap.mp h
    simp only [Option.ite_none_left_eq_some, Option.some.injEq] at hv
    obtain ⟨-, rfl⟩ := hv
    exact ⟨_, .item position (List.fst_mem_of_mem_zipIdx hitem), at_atPosition⟩

/-- The records of a clash begin with a record of the block. -/
theorem blockPlace_firstPosition {κ : Type} [DecidableEq κ] {keyOf : Mapping → Option κ} {key : κ}
    (h : 2 ≤ (carriers keyOf key input.block.records).length) :
    BlockPlace input.block (firstPosition (carriers keyOf key input.block.records)) := by
  obtain ⟨r, rest, hcarriers⟩ := List.exists_cons_of_length_pos (Nat.lt_of_lt_of_le Nat.zero_lt_two h)
  have hr : r ∈ carriers keyOf key input.block.records := hcarriers ▸ List.mem_cons_self
  rw [hcarriers]
  exact blockPlace_of_mem_records (List.mem_filter.mp hr).1

/-- Groups of two or more are reported at a record of the block, the first that carries the
key. -/
theorem place_of_mem_groups {κ : Type} [DecidableEq κ] {keyOf : Mapping → Option κ}
    {origin : Origin} {message : κ × List Mapping → Text}
    (h : v ∈ (groupBy keyOf input.block.records).filterMap fun g =>
      if 2 ≤ g.2.length then some (.atPosition severity origin (message g) (firstPosition g.2))
      else none) :
    ∃ p, BlockPlace input.block p ∧ v.At p := by
  obtain ⟨keys, hclashes, hreports⟩ := exists_clashes keyOf input.block.records
    fun g => .atPosition severity origin (message g) (firstPosition g.2)
  rw [hreports] at h
  obtain ⟨key, hkey, rfl⟩ := List.mem_map.mp h
  exact ⟨_, blockPlace_firstPosition ((hclashes.complete key).mp hkey), at_atPosition⟩

theorem place_of_mem_uniqueNames (h : v ∈ uniqueNames.run severity input) :
    ∃ p, BlockPlace input.block p ∧ v.At p := by
  simp only [uniqueNames] at h
  split at h
  · exact place_of_mem_groups h
  · exact place_of_mem_groups h
  · cases h

theorem place_of_mem_uniqueTitles (h : v ∈ uniqueTitles.run severity input) :
    ∃ p, BlockPlace input.block p ∧ v.At p := by
  simp only [uniqueTitles] at h
  split at h
  · exact place_of_mem_groups h
  · cases h

/-- Of every name the first record that has it is kept. A later record with the name is looked
up in vain, as the name is there already. -/
theorem find?_firstByName (records : List Mapping) (name : Text) :
    (firstByName records).find? (·.1 == name)
      = (records.find? (·.text? "name" == some name)).map (name, ·) := by
  induction records using List.reverseRecOn with
  | nil => rfl
  | append_singleton records r ih =>
    rw [firstByName, List.foldl_append, List.foldl_cons, List.foldl_nil,
      ← show firstByName records = records.foldl _ [] from rfl, List.find?_append, Option.map_or,
      ← ih, List.find?_singleton]
    cases hname : r.text? "name" with
    | none => exact Option.or_none.symm
    | some n =>
      by_cases heq : n = name
      · subst heq
        simp only [beq_self_eq_true, if_true, Option.map_some]
        split
        · next hany =>
          -- an earlier record has the name already
          obtain ⟨found, hfound⟩ := Option.isSome_iff_exists.mp
            (List.find?_isSome.trans List.any_eq_true.symm |>.mpr hany)
          rw [hfound]
          rfl
        · rw [List.find?_append]
          simp
      · have hother : (some n == some name) = false := by simpa using heq
        simp only [hother, Bool.false_eq_true, if_false, Option.map_none, Option.or_none]
        split
        · rfl
        · rw [List.find?_append]
          simp [heq]

/-- The suspected name is one of the names: it is the only member of its group, and groups are
made of names. -/
theorem suspect_mem_names {names : List Text} {minLength : Nat} {threshold : Int}
    {s : Typo.Suspicion UInt16} (h : s ∈ Typo.suspicions names minLength threshold) :
    s.suspect.members.headD s.suspect.stem ∈ names := by
  obtain ⟨hgroup, hlone, -⟩ := Typo.exists_groups_of_mem h
  obtain ⟨name, hname⟩ := List.length_eq_one_iff.mp hlone
  have hsplit : PrefixGroups.split minLength names = PrefixGroups.greedy minLength names :=
    PrefixGroups.splitInto_eq minLength names [] (by simp)
  rw [hsplit] at hgroup
  have hsublist := PrefixGroups.greedy_sublist minLength names _ hgroup
  rw [hname] at hsublist ⊢
  exact hsublist.subset (List.mem_singleton_self name)

/-- The message about a misspelt name, with its quotes. -/
theorem typoMessage_eq (name : Text) (intended : Typo.Family UInt16) :
    typoMessage name intended
      = "Name '" ++ name ++ "' might contain a typo: its prefix is close to '" ++ intended.stem
        ++ "' shared by "
        ++ List.intercalate (", " : Text) (intended.members.map fun t => "'" ++ t ++ "'")
        ++ "." := by
  have hname : ("Name '" : Text) = "Name " ++ "'" := by decide
  have hstem : ("' might contain a typo: its prefix is close to '" : Text)
      = "'" ++ " might contain a typo: its prefix is close to " ++ "'" := by decide
  have hmembers : ("' shared by " : Text) = "'" ++ " shared by " := by decide
  rw [hname, hstem, hmembers]
  simp only [typoMessage, Text.quotedList_eq, Text.quoted, List.append_assoc]

/-- What is reported of a misspelt name stands at the first record that has it. -/
theorem atSuspect_of_mem_namePrefixTypos (h : v ∈ namePrefixTypos.run severity input) :
    AtSuspect input.block.records v := by
  simp only [namePrefixTypos] at h
  split at h
  · obtain ⟨s, hs, rfl⟩ := List.mem_map.mp h
    have hname := suspect_mem_names hs
    generalize s.suspect.members.headD s.suspect.stem = name at hname ⊢
    rw [names_firstByName, List.mem_eraseDups, List.mem_filterMap] at hname
    obtain ⟨r, hr, htext⟩ := hname
    obtain ⟨first, hfirst⟩ := Option.isSome_iff_exists.mp (List.find?_isSome.mpr
      ⟨r, hr, beq_iff_eq.mpr htext⟩ : (input.block.records.find? (·.text? "name" == some name)).isSome)
    refine ⟨name, s.intended.stem, s.intended.members, first, typoMessage_eq _ _, hfirst, ?_⟩
    rw [find?_firstByName, hfirst]
    exact at_atPosition
  · cases h

theorem place_of_atSuspect (h : AtSuspect input.block.records v) :
    ∃ p, BlockPlace input.block p ∧ v.At p := by
  obtain ⟨name, stem, members, r, -, hfind, hat⟩ := h
  exact ⟨_, blockPlace_of_mem_records (List.mem_of_find?_eq_some hfind), hat⟩

/-- The rules on blocks report at the block or at one of its items, and a misspelt name at its
first record. -/
theorem place_of_mem_blockRules : ∀ rule ∈ Catalog.blockRules, v ∈ rule.run severity input →
    (∃ p, BlockPlace input.block p ∧ v.At p)
      ∧ (rule.name = .namePrefixTypos → AtSuspect input.block.records v) := by
  simp only [Catalog.blockRules, List.forall_mem_cons]
  refine ⟨fun h => ⟨place_of_mem_isList h, fun e => ?_⟩,
    fun h => ⟨place_of_mem_uniqueNames h, fun e => ?_⟩,
    fun h => ⟨place_of_mem_uniqueTitles h, fun e => ?_⟩, fun h => ?_, List.forall_mem_nil _⟩
  · cases e
  · cases e
  · cases e
  · have hsuspect := atSuspect_of_mem_namePrefixTypos h
    exact ⟨place_of_atSuspect hsuspect, fun _ => hsuspect⟩

end BlockRules

/-! ## Rules on records -/

/-- The first entry under a key is an entry of the mapping, so its position is one of the
record. -/
theorem Mapping.exists_of_scalarAt? {m : Mapping} {key : Text} {value : Scalar}
    {p : Option Position} (h : m.scalarAt? key = some (value, p)) :
    ∃ e ∈ m.entries, e.value.position = p := by
  rw [Mapping.scalarAt?, Mapping.entry?] at h
  cases hfind : m.entries.find? (·.key == key) with
  | none =>
    rw [hfind] at h
    cases h
  | some e =>
    rw [hfind, Option.map_some] at h
    refine ⟨e, List.mem_of_find?_eq_some hfind, ?_⟩
    split at h
    · next hvalue =>
      cases h
      rw [Option.some.inj hvalue]
      rfl
    · cases h

namespace RecordRules

variable {severity : Severity} {input : RecordInput} {v : Violation}

theorem place_of_mem_requiredKeysPresent (h : v ∈ requiredKeysPresent.run severity input) :
    ∃ p, RecordPlace input.record p ∧ v.At p := by
  refine ⟨_, .record _, ?_⟩
  simp only [requiredKeysPresent] at h
  split at h
  · rw [List.mem_singleton.mp h]
    exact at_atPosition
  · split at h
    · cases h
    · rw [List.mem_singleton.mp h]
      exact at_atPosition

theorem place_of_mem_keysValid (h : v ∈ keysValid.run severity input) :
    ∃ p, RecordPlace input.record p ∧ v.At p := by
  simp only [keysValid] at h
  split at h
  · rw [List.mem_singleton.mp h]
    exact ⟨_, .record _, at_atPosition⟩
  · obtain ⟨e, he, rfl⟩ := List.mem_map.mp h
    have he := (List.mem_filter.mp he).1
    exact ⟨_, (RecordPlace.key he).orElse ((RecordPlace.value he).orElse (.record _)),
      at_atPosition⟩

theorem place_of_mem_noSubstructures (h : v ∈ noSubstructures.run severity input) :
    ∃ p, RecordPlace input.record p ∧ v.At p := by
  obtain ⟨e, he, rfl⟩ := List.mem_map.mp h
  have he := (List.mem_filter.mp he).1
  exact ⟨_, (RecordPlace.value he).orElse (.record _), at_atPosition⟩

/-- A space at the end is reported at the value that has it, or at its record. -/
theorem place_of_mem_noTrailingSpaces (h : v ∈ noTrailingSpaces.run severity input) :
    ∃ p, RecordPlace input.record p ∧ v.At p := by
  simp only [noTrailingSpaces] at h
  split at h
  · cases h
  · obtain ⟨key, -, hv⟩ := List.mem_filterMap.mp h
    unfold trailingSpace? at hv
    split at hv
    · next t p hscalar =>
      obtain ⟨e, he, rfl⟩ := Mapping.exists_of_scalarAt? hscalar
      simp only [Option.ite_none_right_eq_some, Option.some.injEq] at hv
      obtain ⟨-, rfl⟩ := hv
      exact ⟨_, (RecordPlace.value he).orElse (.record _), at_atPosition⟩
    · cases hv

/-- A nested field is reported at the value that does not fit, or at its record. -/
theorem place_of_mem_nestedCompound {name : RuleName} {code : Text} {vocabulary : Bool}
    (h : v ∈ (nestedCompound name code vocabulary).run severity input) :
    ∃ p, RecordPlace input.record p ∧ v.At p := by
  simp only [nestedCompound] at h
  split at h
  · rw [List.mem_singleton.mp h]
    refine ⟨_, ?_, at_atPosition⟩
    cases hscalar : input.record.scalarAt? "allowmultiples" with
    | none => exact .record _
    | some found =>
      obtain ⟨e, he, hp⟩ := Mapping.exists_of_scalarAt? hscalar
      rw [Option.bind_some, ← hp]
      exact (RecordPlace.value he).orElse (.record _)
  · cases h

/-- The rules on records report at the record, at one of its keys or at one of its values. -/
theorem place_of_mem_recordRules : ∀ rule ∈ Catalog.recordRules, v ∈ rule.run severity input →
    ∃ p, RecordPlace input.record p ∧ v.At p := by
  simp only [Catalog.recordRules, List.forall_mem_cons]
  exact ⟨place_of_mem_requiredKeysPresent, place_of_mem_keysValid, place_of_mem_noSubstructures,
    place_of_mem_noTrailingSpaces, place_of_mem_nestedCompound, place_of_mem_nestedCompound,
    List.forall_mem_nil _⟩

end RecordRules

/-! ## Documents -/

/-- A violation of several rules is that of one of them, at some severity and under its
name. -/
theorem exists_run_of_mem_runRules {ι : Type} {rules : List (Rule ι)}
    (hlawful : ∀ rule ∈ rules, rule.Lawful) {overrides : Overrides} {input : ι} {v : Violation}
    (h : v ∈ runRules rules overrides input) :
    ∃ rule ∈ rules, v.origin = .rule rule.name ∧ ∃ severity, v ∈ rule.run severity input := by
  obtain ⟨rule, hrule, hv⟩ := List.mem_flatMap.mp h
  rw [Rule.apply] at hv
  split at hv
  · cases hv
  · next severity _ =>
    exact ⟨rule, hrule, (hlawful rule hrule input).origin severity v hv, severity, hv⟩

/-- **Violations point into the document.** Whatever the overrides and settings are, a
violation is at the position of the document if it is about the keywords, at a position of
one section's block or of its items if it is about the block, and at a position of one record,
its keys or its values if it is about the record. A name that looks misspelt is reported at
the first record that has it. -/
theorem pointsInto_of_mem_lintDocument (document : Document) (options : LintOptions) :
    ∀ v ∈ lintDocument document options, PointsInto document v := by
  intro v hv
  rcases List.mem_append.mp hv with hv | hv
  · obtain ⟨rule, hrule, horigin, severity, hrun⟩ :=
      exists_run_of_mem_runRules Catalog.lawful_topLevelRules hv
    exact .keywords hrule horigin (KeywordRules.place_of_mem_topLevelRules rule hrule hrun)
  · obtain ⟨s, hs, hv⟩ := List.mem_flatMap.mp hv
    obtain ⟨e, he, rfl⟩ := mem_sections.mp hs
    rcases List.mem_append.mp hv with hv | hv
    · obtain ⟨rule, hrule, horigin, severity, hrun⟩ :=
        exists_run_of_mem_runRules Catalog.lawful_blockRules hv
      obtain ⟨⟨p, hplace, hat⟩, htypo⟩ := BlockRules.place_of_mem_blockRules rule hrule hrun
      exact .block hrule horigin he hplace hat htypo
    · obtain ⟨r, hr, hv⟩ := List.mem_flatMap.mp hv
      obtain ⟨rule, hrule, horigin, severity, hrun⟩ :=
        exists_run_of_mem_runRules Catalog.lawful_recordRules hv
      obtain ⟨p, hplace, hat⟩ := RecordRules.place_of_mem_recordRules rule hrule hrun
      exact .record hrule horigin he hr hplace hat

/-- A record with a name on a line of its own. -/
def namedRecord (name : Text) (line : Nat) : Node :=
  .mapping [⟨"name", .scalar (.text name) (some ⟨line, some 11⟩), some ⟨line, some 5⟩⟩]
    (some ⟨line, some 5⟩)

/-- Fields whose names begin alike, and two fields with one misspelt name. -/
def misspeltDocument : Document where
  entries :=
    [⟨"datasetField",
      .list [namedRecord "title" 2, namedRecord "tilteText" 3, namedRecord "titleText" 4,
        namedRecord "tilteText" 5] (some ⟨2, some 3⟩),
      some ⟨1, some 1⟩⟩]
  position := some ⟨1, some 1⟩

/-- What is reported of the misspelt name. -/
def misspellingFound : Violation where
  severity := .warning
  origin := .rule .namePrefixTypos
  message := BlockRules.typoMessage "tilteText" ⟨"title", ["title", "titleText"]⟩
  line := some 3
  column := some 5

theorem pointsInto_misspellingFound :
    misspellingFound ∈ lintDocument misspeltDocument {}
      ∧ PointsInto misspeltDocument misspellingFound := by
  have hmem : misspellingFound ∈ lintDocument misspeltDocument {} := by decide +kernel
  exact ⟨hmem, pointsInto_of_mem_lintDocument misspeltDocument {} misspellingFound hmem⟩

end MetadataBlock
