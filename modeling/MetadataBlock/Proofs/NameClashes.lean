import MetadataBlock.Proofs.ErrorFreeDocument
import MetadataBlock.Proofs.FirstOccurrence
import MetadataBlock.Proofs.JsonText
import MetadataBlock.Proofs.SectionReordering

/-!
# Clashes of names and titles

The rules on names and on titles put records into groups and report the groups of two or
more. Read against the records alone: a key clashes if at least two records carry it, and
every clash is reported once, in the order of the first records that carry the keys.

- `text?_eq_some_iff`, `titleWithParent?_eq_some_iff`, `parent?_eq_some_iff`: the texts, the
  title and the parent of a record;
- `carriers`, `Clashes`: the records that carry a key, and the keys that clash;
- `exists_clashes`: reporting the groups of two or more is reporting the clashes;
- `titleKey_injective`, `groupBy_map_key`: titles may be grouped by the JSON text of title
  and parent, as it tells the two;
- `clashReport`: what is reported of the records that carry one key;
- `exists_nameReports`, `exists_titleReports`: the two rules;
- `unique_rules_report_clashes`: both rules, on every block.
-/

namespace MetadataBlock

open BlockRules

/-! ## Texts of a record -/

/-- A mapping has the text of the first value under a key, if this is a scalar other than null.
A later value under the same key is not looked at. -/
theorem Mapping.text?_eq_some_iff {m : Mapping} {key t : Text} : m.text? key = some t
    ↔ ∃ v position, m.entry? key = some (.scalar v position) ∧ v ≠ .null ∧ v.text? = some t := by
  rw [Mapping.text?, Mapping.scalar?, Mapping.scalarAt?]
  constructor
  · intro h
    cases hentry : m.entry? key with
    | none => simp [hentry] at h
    | some n =>
      cases n with
      | list | mapping => simp [hentry] at h
      | scalar v position =>
        have htext : v.text? = some t := by simpa [hentry] using h
        refine ⟨v, position, rfl, ?_, htext⟩
        rintro rfl
        cases htext
  · rintro ⟨v, position, hentry, -, htext⟩
    rw [hentry]
    exact htext

namespace BlockRules

/-- The parent of a record is a text that is not empty. -/
theorem parent?_eq_some_iff {r : Mapping} {p : Text} :
    parent? r = some p ↔ r.text? "parent" = some p ∧ p ≠ [] := by
  rw [parent?, Option.filter_eq_some_iff]
  simp

theorem titleWithParent?_eq_some_iff {r : Mapping} {title : Text} {parent : Option Text} :
    titleWithParent? r = some (title, parent)
      ↔ r.text? "title" = some title ∧ parent? r = parent := by
  rw [titleWithParent?, Option.map_eq_some_iff]
  simp

/-! ## Clashes -/

section

variable {κ : Type} [DecidableEq κ]

/-- The records that carry a key. -/
def carriers (keyOf : Mapping → Option κ) (key : κ) (records : List Mapping) : List Mapping :=
  records.filter fun r => keyOf r = some key

/-- The place of the first record that carries a key. -/
def firstPlace (keyOf : Mapping → Option κ) (records : List Mapping) (key : κ) : Nat :=
  records.findIdx fun r => keyOf r = some key

/-- The keys that two or more records carry, each once, in the order of the first records
that carry them. -/
structure Clashes (keyOf : Mapping → Option κ) (records : List Mapping) (keys : List κ) : Prop where
  once : keys.Nodup
  complete : ∀ key, key ∈ keys ↔ 2 ≤ (carriers keyOf key records).length
  ordered : keys.Pairwise fun key key' =>
    firstPlace keyOf records key < firstPlace keyOf records key'

variable {keyOf : Mapping → Option κ} {records : List Mapping}

/-- A key has its place among the records if one of them carries it. -/
theorem firstPlace_lt_iff {key : κ} :
    firstPlace keyOf records key < records.length ↔ key ∈ records.filterMap keyOf := by
  rw [firstPlace, List.findIdx_lt_length, List.mem_filterMap]
  simp only [decide_eq_true_eq]

/-- A key keeps its place when more records follow. -/
theorem firstPlace_append_of_mem {key : κ} (h : key ∈ records.filterMap keyOf)
    (more : List Mapping) :
    firstPlace keyOf (records ++ more) key = firstPlace keyOf records key := by
  rw [firstPlace, List.findIdx_append]
  exact if_pos (firstPlace_lt_iff.mpr h)

/-- A new key has its place behind all records, so it comes after every key that was there. -/
theorem le_firstPlace_append {key : κ} (h : key ∉ records.filterMap keyOf)
    (more : List Mapping) : records.length ≤ firstPlace keyOf (records ++ more) key := by
  have hplace : ¬ firstPlace keyOf records key < records.length := fun hlt =>
    h (firstPlace_lt_iff.mp hlt)
  rw [firstPlace] at hplace
  rw [firstPlace, List.findIdx_append, if_neg hplace]
  exact Nat.le_add_left _ _

/-- Keys without repetitions are in the order of their first places. The induction adds one
record at the end: a new key goes behind the others, and a known one changes nothing. -/
theorem ordered_eraseDups (keyOf : Mapping → Option κ) (records : List Mapping) :
    ((records.filterMap keyOf).eraseDups).Pairwise fun key key' =>
      firstPlace keyOf records key < firstPlace keyOf records key' := by
  induction records using List.reverseRecOn with
  | nil => exact .nil
  | append_singleton records r ih =>
    -- the keys that were there keep their places
    have hkept : ((records.filterMap keyOf).eraseDups).Pairwise fun key key' =>
        firstPlace keyOf (records ++ [r]) key < firstPlace keyOf (records ++ [r]) key' := by
      refine ih.imp_of_mem fun hkey hkey' hlt => ?_
      rw [firstPlace_append_of_mem (List.mem_eraseDups.mp hkey),
        firstPlace_append_of_mem (List.mem_eraseDups.mp hkey')]
      exact hlt
    cases hkey : keyOf r with
    | none =>
      have hkeys : (records ++ [r]).filterMap keyOf = records.filterMap keyOf := by simp [hkey]
      rw [hkeys]
      exact hkept
    | some new =>
      have hkeys : (records ++ [r]).filterMap keyOf = records.filterMap keyOf ++ [new] := by
        simp [hkey]
      rw [hkeys]
      by_cases hmem : new ∈ records.filterMap keyOf
      · rw [eraseDups_concat_of_mem hmem]
        exact hkept
      · rw [eraseDups_concat_of_not_mem hmem, List.pairwise_append]
        refine ⟨hkept, List.pairwise_singleton _ _, fun key hold key' hnew => ?_⟩
        have hold := List.mem_eraseDups.mp hold
        rw [List.mem_singleton.mp hnew, firstPlace_append_of_mem hold]
        exact Nat.lt_of_lt_of_le (firstPlace_lt_iff.mpr hold) (le_firstPlace_append hmem [r])

/-- Reporting the groups of two or more is reporting the clashes. A group holds the records
that carry its key, and groups come in the order in which their keys occur first. -/
theorem exists_clashes (keyOf : Mapping → Option κ) (records : List Mapping)
    (found : κ × List Mapping → Violation) :
    ∃ keys, Clashes keyOf records keys ∧
      ((groupBy keyOf records).filterMap fun g => if 2 ≤ g.2.length then some (found g) else none)
        = keys.map fun key => found (key, carriers keyOf key records) := by
  refine ⟨(records.filterMap keyOf).eraseDups.filter fun key =>
    2 ≤ (carriers keyOf key records).length, ?_, ?_⟩
  · refine ⟨(nodup_eraseDups _).sublist List.filter_sublist, fun key => ?_,
      (ordered_eraseDups keyOf records).sublist List.filter_sublist⟩
    rw [List.mem_filter, List.mem_eraseDups, decide_eq_true_iff]
    refine and_iff_right_of_imp fun hlength => ?_
    -- a record that carries the key gives it to the list
    obtain ⟨r, hr⟩ := List.exists_mem_of_length_pos (Nat.lt_of_lt_of_le Nat.zero_lt_two hlength)
    obtain ⟨hmem, hkey⟩ := List.mem_filter.mp hr
    exact List.mem_filterMap.mpr ⟨r, hmem, of_decide_eq_true hkey⟩
  · rw [groupBy_eq, groupsOf, List.filterMap_map, ← List.filterMap_eq_map, List.filterMap_filter]
    refine List.filterMap_congr fun key _ => ?_
    simp only [Function.comp_apply, carriers]
    exact if_congr decide_eq_true_iff.symm rfl rfl

/-! ## Keys as texts -/

section

variable {κ' : Type} [DecidableEq κ'] {f : κ → κ'}

/-- Texts that tell their keys repeat where the keys do. -/
theorem eraseDups_map_of_injective (hf : ∀ a b, f a = f b → a = b) (keys : List κ) :
    (keys.map f).eraseDups = keys.eraseDups.map f := by
  induction keys using List.reverseRecOn with
  | nil => rfl
  | append_singleton keys key ih =>
    rw [List.map_append, List.map_singleton]
    by_cases h : key ∈ keys
    · rw [eraseDups_concat_of_mem h, eraseDups_concat_of_mem (List.mem_map_of_mem h), ih]
    · have hmap : f key ∉ keys.map f := by
        rintro hmem
        obtain ⟨key', hkey', heq⟩ := List.mem_map.mp hmem
        exact h (hf _ _ heq ▸ hkey')
      rw [eraseDups_concat_of_not_mem h, eraseDups_concat_of_not_mem hmap, ih, List.map_append,
        List.map_singleton]

/-- Keys may be replaced by what tells them: the groups and their order stay the same. -/
theorem groupBy_map_key (hf : ∀ a b, f a = f b → a = b) (keyOf : Mapping → Option κ)
    (records : List Mapping) :
    groupBy (fun r => (keyOf r).map f) records
      = (groupBy keyOf records).map fun g => (f g.1, g.2) := by
  have hkeys : (records.filterMap fun r => (keyOf r).map f) = (records.filterMap keyOf).map f :=
    List.map_filterMap.symm
  rw [groupBy_eq, groupBy_eq, groupsOf, groupsOf, hkeys, eraseDups_map_of_injective hf,
    List.map_map, List.map_map]
  refine List.map_congr_left fun key _ => ?_
  simp only [Function.comp_apply]
  refine congrArg (Prod.mk (f key)) (List.filter_congr fun r _ => ?_)
  rw [decide_eq_decide]
  cases keyOf r with
  | none => exact iff_of_false (Option.some_ne_none _ ·.symm) (Option.some_ne_none _ ·.symm)
  | some key' =>
    rw [Option.map_some, Option.some.injEq, Option.some.injEq]
    exact ⟨hf key' key, congrArg f⟩

end

end

/-- A title with its parent, if any, as the JSON text of a list of two. -/
def titleKey (key : Text × Option Text) : Text :=
  (Data.list [.text key.1, (key.2.map Data.text).getD .null]).json

/-- The text tells title and parent: no quote, comma or word inside them is taken for a part of
the list. A JSON string is known from the text that it begins, so the title is known, and the
parent from what follows it. -/
theorem titleKey_injective : ∀ key key', titleKey key = titleKey key' → key = key' := by
  rintro ⟨title, parent⟩ ⟨title', parent'⟩ h
  have hlist : ∀ (t : Text) (d : Data),
      (Data.list [.text t, d]).json = "[" ++ (Json.string t ++ ("," ++ (d.json ++ "]"))) := by
    intro t d
    simp only [Data.json, Data.jsonItems, Text.joinWith, List.intercalate, List.intersperse_cons_cons,
      List.intersperse_singleton, List.flatten_cons, List.flatten_nil, List.append_nil, List.append_assoc]
  rw [titleKey, titleKey, hlist, hlist] at h
  obtain ⟨rfl, h⟩ := Json.string_append_inj (List.append_cancel_left h)
  have h := List.append_cancel_left h
  -- what follows the title begins with a quote if there is a parent
  cases parent with
  | none =>
    cases parent' with
    | none => rfl
    | some p' => exact absurd (List.cons.inj h).1 (by decide)
  | some p =>
    cases parent' with
    | none => exact absurd (List.cons.inj h).1 (by decide)
    | some p' =>
      obtain ⟨rfl, -⟩ := Json.string_append_inj h
      rfl

/-! ## Reports -/

/-- The lines of those records that have a position. -/
def knownLines (records : List Mapping) : List Nat :=
  records.filterMap fun r => r.position.map (·.line)

/-- Some lines after a colon, or nothing. -/
def linesClause (lines : List Nat) : Text :=
  if lines = [] then []
  else ": " ++ Text.joinWith ", " (lines.map fun n => "line " ++ Text.ofNat n)

/-- The clause about the lines is left out where no record has a position. -/
theorem linesSuffix_eq (records : List Mapping) :
    linesSuffix records = linesClause (knownLines records) := by
  have htext : linesText records
      = Text.joinWith ", " ((knownLines records).map fun n => "line " ++ Text.ofNat n) := by
    rw [linesText, knownLines, List.map_filterMap]
    simp only [Option.map_map]
    rfl
  rw [linesSuffix, linesClause, htext]
  cases knownLines records with
  | nil => rfl
  | cons n rest =>
    cases rest <;> rfl

/-- What is reported of the records that carry one key: how many there are and on which
lines, at the first of them. -/
def clashReport (severity : Severity) (rule : RuleName) (subject clause advice : Text)
    (clashing : List Mapping) : Violation :=
  .atPosition severity (.rule rule)
    (subject ++ " occurs " ++ Text.ofNat clashing.length ++ " times" ++ clause
      ++ linesClause (knownLines clashing) ++ advice)
    (clashing.head?.bind (·.position))

/-- What is reported of a name. -/
def nameReport (severity : Severity) (records : List Mapping) (name : Text) : Violation :=
  clashReport severity .uniqueNames ("Name '" ++ name ++ "'") [] ". Names have to be unique."
    (carriers (·.text? "name") name records)

/-- What is reported of a title, with its parent if there is one. -/
def titleReport (severity : Severity) (records : List Mapping) (key : Text × Option Text) :
    Violation :=
  clashReport severity .uniqueTitles ("Title '" ++ key.1 ++ "'")
    (key.2.elim [] fun parent => " under parent '" ++ parent ++ "'")
    ". Titles should be unique." (carriers titleWithParent? key records)

/-- The report on a name is what the rule gives, with its message spelled out. -/
theorem nameReport_eq (severity : Severity) (records : List Mapping) (name : Text) :
    nameReport severity records name
      = .atPosition severity (.rule .uniqueNames)
          (nameMessage name (carriers (·.text? "name") name records))
          (firstPosition (carriers (·.text? "name") name records)) := by
  have hname : ("Name '" : Text) = "Name " ++ "'" := by decide
  rw [nameReport, clashReport, nameMessage, linesSuffix_eq, List.append_nil, hname, Text.quoted]
  simp only [List.append_assoc]
  rfl

/-- The report on a title is what the rule gives, with its message spelled out. -/
theorem titleReport_eq (severity : Severity) (records : List Mapping) (key : Text × Option Text) :
    titleReport severity records key
      = .atPosition severity (.rule .uniqueTitles)
          (titleMessage key.1 key.2 (carriers titleWithParent? key records))
          (firstPosition (carriers titleWithParent? key records)) := by
  obtain ⟨title, parent⟩ := key
  have htitle : ("Title '" : Text) = "Title " ++ "'" := by decide
  have hparent : (" under parent '" : Text) = " under parent " ++ "'" := by decide
  simp only [titleReport, clashReport, titleMessage, linesSuffix_eq, htitle, hparent, Text.quoted,
    List.append_assoc]
  cases parent <;> rfl

/-- The rule on names reports the names that clash, in the first two sections. Records of the
third section may share a name. -/
theorem exists_nameReports (severity : Severity) (input : BlockInput) :
    ∃ names, Clashes (·.text? "name") input.block.records names ∧
      uniqueNames.run severity input =
        if input.keyword = SectionKeyword.metadataBlock.text
            ∨ input.keyword = SectionKeyword.datasetField.text then
          names.map (nameReport severity input.block.records)
        else [] := by
  obtain ⟨names, hclashes, hreports⟩ := exists_clashes (·.text? "name") input.block.records
    fun g => .atPosition severity (.rule .uniqueNames) (nameMessage g.1 g.2) (firstPosition g.2)
  refine ⟨names, hclashes, ?_⟩
  rw [← funext (nameReport_eq severity input.block.records)] at hreports
  rw [uniqueNames]
  simp only
  split
  · next hk =>
    rw [if_pos (.inl (ofText?_eq_some_iff.mp hk))]
    exact hreports
  · next hk =>
    rw [if_pos (.inr (ofText?_eq_some_iff.mp hk))]
    exact hreports
  · next hblock hfield =>
    rw [if_neg]
    rintro (h | h)
    · exact hblock (ofText?_eq_some_iff.mpr h)
    · exact hfield (ofText?_eq_some_iff.mpr h)

/-- The rule on titles reports the titles that clash among the fields. The same title below two
parents is no clash. -/
theorem exists_titleReports (severity : Severity) (input : BlockInput) :
    ∃ titles, Clashes titleWithParent? input.block.records titles ∧
      uniqueTitles.run severity input =
        if input.keyword = SectionKeyword.datasetField.text then
          titles.map (titleReport severity input.block.records)
        else [] := by
  obtain ⟨titles, hclashes, hreports⟩ := exists_clashes titleWithParent? input.block.records
    fun g => .atPosition severity (.rule .uniqueTitles) (titleMessage g.1.1 g.1.2 g.2)
      (firstPosition g.2)
  refine ⟨titles, hclashes, ?_⟩
  rw [← funext (titleReport_eq severity input.block.records)] at hreports
  rw [uniqueTitles]
  simp only
  split
  · next hk =>
    rw [if_pos (ofText?_eq_some_iff.mp hk)]
    exact hreports
  · next hfield => rw [if_neg fun h => hfield (ofText?_eq_some_iff.mpr h)]

/-- **Every clash is reported once.** The rule on names reports, in the first two sections,
every name text that two or more records carry; the rule on titles reports, among the fields,
every title text that two or more records carry below one parent. The reports follow the
order of the first records. Grouping titles by the JSON text of title and parent makes the
same groups. A record whose value is absent, nested or null carries no key, and such a value
or an empty one below the parent means that there is no parent. -/
theorem unique_rules_report_clashes (severity : Severity) (input : BlockInput) :
    (∃ names, Clashes (·.text? "name") input.block.records names ∧
      uniqueNames.run severity input =
        if input.keyword = SectionKeyword.metadataBlock.text
            ∨ input.keyword = SectionKeyword.datasetField.text then
          names.map (nameReport severity input.block.records)
        else []) ∧
    (∃ titles, Clashes titleWithParent? input.block.records titles ∧
      uniqueTitles.run severity input =
        if input.keyword = SectionKeyword.datasetField.text then
          titles.map (titleReport severity input.block.records)
        else []) ∧
    (groupBy (fun r => (titleWithParent? r).map titleKey) input.block.records
      = (groupBy titleWithParent? input.block.records).map fun g => (titleKey g.1, g.2)) ∧
    ∀ r : Mapping,
      (∀ key t, r.text? key = some t ↔ ∃ v position,
        r.entry? key = some (.scalar v position) ∧ v ≠ .null ∧ v.text? = some t) ∧
      (∀ title parent, titleWithParent? r = some (title, parent)
        ↔ r.text? "title" = some title ∧ parent? r = parent) ∧
      ∀ p, parent? r = some p ↔ r.text? "parent" = some p ∧ p ≠ [] := by
  refine ⟨exists_nameReports severity input, exists_titleReports severity input,
    groupBy_map_key titleKey_injective _ _, fun r => ⟨fun key t => Mapping.text?_eq_some_iff,
      fun title parent => titleWithParent?_eq_some_iff, fun p => parent?_eq_some_iff⟩⟩

end BlockRules

end MetadataBlock
