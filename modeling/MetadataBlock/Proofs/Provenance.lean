import Mathlib.Data.List.Forall2
import MetadataBlock.Lint.Validation
import MetadataBlock.Proofs.BareNode
import MetadataBlock.Proofs.WrittenTable
import MetadataBlock.Proofs.RuleReports

/-!
# Positions are provenance

Where a node was written shows in messages and in the places of violations, and decides
nothing. Every result on a document is the result on its bare form, so equal documents
have the same results.

- `Rule.Blind`: a rule finds as many violations in a bare input; with one lemma for every
  rule (`blind_topLevelRules`, `blind_blockRules`, `blind_recordRules` for the catalog);
- `kinds_lintDocument_bare`: origins and severities of all violations;
- `longestRow_bare`, `render_bare`, `format_bare`: the width, the table and the compact text;
- `results_eq_of_same`: equal documents.
-/

namespace MetadataBlock

/-- What a violation is apart from its message and its place. -/
def Violation.kind (v : Violation) : Origin × Severity :=
  (v.origin, v.severity)

/-- A rule finds as many violations in the bare form of an input. -/
def Rule.Blind {ι : Type} (bare : ι → ι) (rule : Rule ι) : Prop :=
  ∀ severity input, (rule.run severity (bare input)).length = (rule.run severity input).length

section

variable {ι : Type} {bare : ι → ι}

/-- All violations of a rule are of one kind. -/
theorem Rule.Lawful.kinds_run {rule : Rule ι} (h : rule.Lawful) (severity : Severity) (input : ι) :
    (rule.run severity input).map Violation.kind
      = List.replicate (rule.run severity input).length (.rule rule.name, severity) := by
  rw [List.map_eq_replicate_iff]
  intro v hv
  rw [Violation.kind, (h input).origin severity v hv, (h input).severity_eq hv]

/-- Blind rules find violations of the same kinds in a bare input. All violations of one rule
are of one kind, so it is enough to count them. -/
theorem kinds_runRules_bare {rules : List (Rule ι)} (hlawful : ∀ rule ∈ rules, rule.Lawful)
    (hblind : ∀ rule ∈ rules, rule.Blind bare) (overrides : Overrides) (input : ι) :
    (runRules rules overrides (bare input)).map Violation.kind
      = (runRules rules overrides input).map Violation.kind := by
  rw [runRules, runRules, List.map_flatMap, List.map_flatMap]
  refine List.flatMap_congr fun rule hrule => ?_
  rw [Rule.apply, Rule.apply]
  cases rule.resolve overrides with
  | skipped => rfl
  | active severity =>
    show ((rule.run severity (bare input)).map _) = ((rule.run severity input).map _)
    rw [(hlawful rule hrule).kinds_run, (hlawful rule hrule).kinds_run,
      hblind rule hrule severity input]

end

/-- How much is found depends on what is found for each element only. -/
theorem length_filterMap_congr {α β γ : Type} {f : α → Option β} {g : α → Option γ} {l : List α}
    (h : ∀ a ∈ l, (f a).isSome = (g a).isSome) :
    (l.filterMap f).length = (l.filterMap g).length := by
  rw [List.length_filterMap_eq_countP, List.length_filterMap_eq_countP]
  exact List.countP_congr fun a ha => by rw [h a ha]

/-! ## Keywords -/

/-- The input without a position. -/
def KeywordsInput.bare (input : KeywordsInput) : KeywordsInput :=
  { input with position := none }

namespace KeywordRules

theorem blind_valid : valid.Blind KeywordsInput.bare := by
  intro severity input
  simp only [valid, KeywordsInput.bare]
  split <;> rfl

theorem blind_unique : unique.Blind KeywordsInput.bare := by
  intro severity input
  simp only [unique, KeywordsInput.bare]
  split <;> rfl

end KeywordRules

/-! ## Blocks -/

/-- The input with a bare block. -/
def BlockInput.bare (input : BlockInput) : BlockInput :=
  { input with block := input.block.bare }

namespace BlockRules

section

variable {κ α β : Type} [DecidableEq κ]

/-- Grouping images gives the images of groups. -/
theorem groupBy_map (keyOf : β → Option κ) (f : α → β) (elements : List α) :
    groupBy keyOf (elements.map f)
      = (groupBy (fun a => keyOf (f a)) elements).map fun g => (g.1, g.2.map f) := by
  rw [groupBy_eq, groupBy_eq, groupsOf, groupsOf, List.filterMap_map, List.map_map]
  refine List.map_congr_left fun key _ => ?_
  rw [List.filter_map]
  rfl

end

@[simp]
theorem parent?_bare (r : Mapping) : parent? r.bare = parent? r := by
  rw [parent?, parent?, Mapping.text?_bare]

@[simp]
theorem titleWithParent?_bare (r : Mapping) : titleWithParent? r.bare = titleWithParent? r := by
  rw [titleWithParent?, titleWithParent?, Mapping.text?_bare, parent?_bare]

/-- Reporting the groups of two or more finds as many among bare records. The groups have the
same keys and as many members. -/
theorem length_groups_bare {κ : Type} [DecidableEq κ] {keyOf : Mapping → Option κ}
    (hkey : ∀ r : Mapping, keyOf r.bare = keyOf r) {found : κ × List Mapping → Violation}
    (records : List Mapping) :
    ((groupBy keyOf (records.map Mapping.bare)).filterMap fun g =>
        if 2 ≤ g.2.length then some (found g) else none).length
      = ((groupBy keyOf records).filterMap fun g =>
        if 2 ≤ g.2.length then some (found g) else none).length := by
  have hgroups : groupBy keyOf (records.map Mapping.bare)
      = (groupBy keyOf records).map fun g => (g.1, g.2.map Mapping.bare) := by
    rw [groupBy_map]
    simp only [hkey]
  rw [hgroups, List.filterMap_map]
  refine length_filterMap_congr fun g _ => ?_
  simp only [Function.comp_apply, List.length_map]
  split <;> rfl

/-- The names are the texts that occur, each once, as a record is kept only for a name that is
new. -/
theorem names_firstByName (records : List Mapping) :
    (firstByName records).map (·.1) = (records.filterMap (·.text? "name")).eraseDups := by
  -- from the right, as the fold takes the last record last
  induction records using List.reverseRecOn with
  | nil => rfl
  | append_singleton records r ih =>
    rw [firstByName, List.foldl_append, List.foldl_cons, List.foldl_nil,
      ← show firstByName records = records.foldl _ [] from rfl]
    cases hname : r.text? "name" with
    | none => simp only [ih, List.filterMap_append, List.filterMap_cons, hname, List.filterMap_nil,
        List.append_nil]
    | some name =>
      have hnames : (records ++ [r]).filterMap (·.text? "name")
          = records.filterMap (·.text? "name") ++ [name] := by
        simp only [List.filterMap_append, List.filterMap_cons, hname, List.filterMap_nil]
      have hany : (firstByName records).any (·.1 == name) = true
          ↔ name ∈ records.filterMap (·.text? "name") := by
        rw [← List.mem_eraseDups, ← ih, List.any_eq_true, List.mem_map]
        refine exists_congr fun named => and_congr_right fun _ => ?_
        rw [beq_iff_eq]
      rw [hnames]
      simp only
      split
      · next h => rw [ih, eraseDups_concat_of_mem (hany.mp h)]
      · next h =>
        rw [List.map_append, ih, eraseDups_concat_of_not_mem fun hmem => h (hany.mpr hmem)]
        rfl

/-- Being a list of records is a matter of the constructors, which hold a position each. -/
theorem blind_isList : isList.Blind BlockInput.bare := by
  rintro severity ⟨keyword, block, settings⟩
  cases block with
  | scalar value position => rfl
  | mapping entries position => rfl
  | list items position =>
    show ((Node.bareItems items).zipIdx 1 |>.filterMap _).length = ((items.zipIdx 1).filterMap _).length
    rw [Node.bareItems_eq_map, List.zipIdx_map, List.filterMap_map]
    refine length_filterMap_congr fun placed _ => ?_
    simp only [Function.comp_apply, Prod.map_fst, Prod.map_snd, Node.isMapping_bare]
    split <;> rfl

/-- Names are compared as texts, and their records only counted. -/
theorem blind_uniqueNames : uniqueNames.Blind BlockInput.bare := by
  intro severity input
  simp only [uniqueNames, BlockInput.bare, Node.records_bare]
  split
  · exact length_groups_bare (fun r => r.text?_bare "name") input.block.records
  · exact length_groups_bare (fun r => r.text?_bare "name") input.block.records
  · rfl

theorem blind_uniqueTitles : uniqueTitles.Blind BlockInput.bare := by
  intro severity input
  simp only [uniqueTitles, BlockInput.bare, Node.records_bare]
  split
  · exact length_groups_bare titleWithParent?_bare input.block.records
  · rfl

/-- What is suspected of a name depends on the names, so as many are suspected. -/
theorem blind_namePrefixTypos : namePrefixTypos.Blind BlockInput.bare := by
  intro severity input
  have hnames : (firstByName (input.block.records.map Mapping.bare)).map (·.1)
      = (firstByName input.block.records).map (·.1) := by
    rw [names_firstByName, names_firstByName, List.filterMap_map]
    refine congrArg _ (List.filterMap_congr fun r _ => ?_)
    exact r.text?_bare "name"
  simp only [namePrefixTypos, BlockInput.bare, Node.records_bare]
  split
  · rw [List.length_map, List.length_map, hnames]
  · rfl

end BlockRules

/-! ## Records -/

/-- The input with a bare record. -/
def RecordInput.bare (input : RecordInput) : RecordInput :=
  { input with record := input.record.bare }

namespace RecordRules

open BlockRules (parent? parent?_bare)

theorem filter_entries_bare {P : Entry → Bool} (hP : ∀ e : Entry, P e.bare = P e) (m : Mapping) :
    (m.bare.entries.filter P).length = (m.entries.filter P).length := by
  rw [Mapping.bare, List.filter_map, List.length_map]
  exact congrArg List.length (List.filter_congr fun e _ => hP e)

theorem blind_requiredKeysPresent : requiredKeysPresent.Blind RecordInput.bare := by
  intro severity input
  have hmissing : ∀ key, (input.record.bare.entry? key).isNone = (input.record.entry? key).isNone := by
    intro key
    rw [Mapping.entry?_bare, Option.isNone_map]
  simp only [requiredKeysPresent, RecordInput.bare, hmissing]
  split
  · rfl
  · split <;> rfl

theorem blind_keysValid : keysValid.Blind RecordInput.bare := by
  intro severity input
  simp only [keysValid, RecordInput.bare]
  split
  · rfl
  · rw [List.length_map, List.length_map]
    exact filter_entries_bare (fun _ => rfl) input.record

theorem blind_noSubstructures : noSubstructures.Blind RecordInput.bare := by
  intro severity input
  simp only [noSubstructures, RecordInput.bare, List.length_map]
  refine filter_entries_bare (fun e => ?_) input.record
  rw [Entry.bare, Node.isScalar_bare]

/-- A space is found in the text of a scalar. A number is compared up to the sign of zero,
which is no space. -/
theorem isSome_trailingSpace?_bare (severity : Severity) (record : Mapping) (key : Text) :
    (trailingSpace? severity record.bare key).isSome = (trailingSpace? severity record key).isSome := by
  rw [trailingSpace?, trailingSpace?, Mapping.scalarAt?_bare]
  cases record.scalarAt? key with
  | none => rfl
  | some found =>
    obtain ⟨value, position⟩ := found
    cases value with
    | text t =>
      show (if endsInBlank t then some _ else none).isSome = (if endsInBlank t then some _ else none).isSome
      split <;> rfl
    | _ => rfl

theorem blind_noTrailingSpaces : noTrailingSpaces.Blind RecordInput.bare := by
  intro severity input
  simp only [noTrailingSpaces, RecordInput.bare]
  split
  · rfl
  · exact length_filterMap_congr fun key _ => isSome_trailingSpace?_bare severity input.record key

/-- Only numbers change in a bare record, and no number is a truth value. -/
theorem holdsBool_bare (record : Mapping) (key : Text) (b : Bool) :
    holdsBool record.bare key b = holdsBool record key b := by
  rw [holdsBool, holdsBool, Mapping.scalar?_bare, Bool.eq_iff_iff, beq_iff_eq, beq_iff_eq]
  cases record.scalar? key with
  | none => exact iff_of_false nofun nofun
  | some v =>
    rw [Option.map_some, Option.some_inj, Option.some_inj]
    exact Scalar.bare_eq_bool_iff

/-- Both rules on nested fields look at a parent and at two truth values. -/
theorem blind_nestedCompound (name : RuleName) (code : Text) (vocabulary : Bool) :
    (nestedCompound name code vocabulary).Blind RecordInput.bare := by
  intro severity input
  have hnested : isNestedMultiple input.bare vocabulary = isNestedMultiple input vocabulary := by
    rw [isNestedMultiple, isNestedMultiple, RecordInput.bare, parent?_bare, holdsBool_bare,
      holdsBool_bare]
  simp only [nestedCompound, hnested]
  split <;> rfl

end RecordRules

/-! ## Documents -/

namespace Catalog

theorem blind_topLevelRules : ∀ rule ∈ topLevelRules, rule.Blind KeywordsInput.bare := by
  simp only [topLevelRules, List.forall_mem_cons]
  exact ⟨KeywordRules.blind_valid, KeywordRules.blind_unique, List.forall_mem_nil _⟩

theorem blind_blockRules : ∀ rule ∈ blockRules, rule.Blind BlockInput.bare := by
  simp only [blockRules, List.forall_mem_cons]
  exact ⟨BlockRules.blind_isList, BlockRules.blind_uniqueNames, BlockRules.blind_uniqueTitles,
    BlockRules.blind_namePrefixTypos, List.forall_mem_nil _⟩

theorem blind_recordRules : ∀ rule ∈ recordRules, rule.Blind RecordInput.bare := by
  simp only [recordRules, List.forall_mem_cons]
  exact ⟨RecordRules.blind_requiredKeysPresent, RecordRules.blind_keysValid,
    RecordRules.blind_noSubstructures, RecordRules.blind_noTrailingSpaces,
    RecordRules.blind_nestedCompound _ _ _, RecordRules.blind_nestedCompound _ _ _,
    List.forall_mem_nil _⟩

end Catalog

/-- A section has violations of the same kinds in its bare form: those of the block, and those
of each record. -/
theorem kinds_lintSection_bare (s : Section) (options : LintOptions) :
    (lintSection s.bare options).map Violation.kind = (lintSection s options).map Violation.kind := by
  have hblock := kinds_runRules_bare Catalog.lawful_blockRules Catalog.blind_blockRules
    options.overrides ⟨s.keyword, s.block, options.settings⟩
  have hrecord : ∀ r : Mapping, (lintRecord s.keyword r.bare options).map Violation.kind
      = (lintRecord s.keyword r options).map Violation.kind := fun r =>
    kinds_runRules_bare Catalog.lawful_recordRules Catalog.blind_recordRules
      options.overrides ⟨s.keyword, r, options.settings⟩
  rw [lintSection, lintSection, List.map_append, List.map_append]
  congr 1
  show (s.block.bare.records.flatMap fun r => lintRecord s.keyword r options).map _ = _
  rw [Node.records_bare, List.flatMap_map, List.map_flatMap, List.map_flatMap]
  exact List.flatMap_congr fun r _ => hrecord r

/-- The violations of a bare document are of the same kinds, in the same order. -/
theorem kinds_lintDocument_bare (document : Document) (options : LintOptions) :
    (lintDocument document.bare options).map Violation.kind
      = (lintDocument document options).map Violation.kind := by
  have hkeywords : (lintKeywords document.bare options).map Violation.kind
      = (lintKeywords document options).map Violation.kind := by
    rw [lintKeywords, lintKeywords, Mapping.keys_bare]
    exact kinds_runRules_bare Catalog.lawful_topLevelRules Catalog.blind_topLevelRules
      options.overrides ⟨document.keys, document.position⟩
  rw [lintDocument, lintDocument, List.map_append, List.map_append, hkeywords,
    Mapping.sections_bare, List.flatMap_map, List.map_flatMap, List.map_flatMap]
  exact congrArg _ (List.flatMap_congr fun s _ => kinds_lintSection_bare s options)

/-- The width of a record is counted from its keys. -/
theorem longestRow_bare (document : Document) :
    document.bare.longestRow = document.longestRow := by
  have hwidth : ∀ (keyword : Text) (r : Mapping), recordWidth keyword r.bare = recordWidth keyword r := by
    intro keyword r
    rw [recordWidth, recordWidth, Mapping.bare, List.length_map]
  rw [Mapping.longestRow, Mapping.longestRow, Mapping.bare, List.foldl_map]
  congr 1
  funext longest e
  show e.value.bare.records.foldl (fun longest r => max longest (recordWidth e.key r)) longest = _
  rw [Node.records_bare, List.foldl_map]
  simp only [hwidth]

/-! ## Tables -/

namespace Table

/-- A cell is written the same, since both zeros are written without a sign. -/
theorem cellOf_bare (keyword : Text) (record : Mapping) (header : Text) :
    cellOf keyword record.bare header = cellOf keyword record header := by
  rw [cellOf, cellOf, Mapping.entry?_bare]
  cases record.entry? header with
  | none => rfl
  | some n =>
    cases n with
    | scalar value position => exact congrArg Except.ok (Scalar.render_bare value)
    | list items position => rfl
    | mapping entries position => rfl

/-- The headers of a section are the keys of its records. -/
theorem headersOf_bare (records : List Mapping) :
    headersOf (records.map Mapping.bare) = headersOf records := by
  rw [headersOf_eq, headersOf_eq, List.flatMap_map]
  simp only [Mapping.keys_bare]

theorem headerRow_bare (s : Section) : headerRow s.bare = headerRow s := by
  rw [headerRow, headerRow, Section.bare, Node.records_bare, headersOf_bare]

theorem sectionRows_bare (s : Section) : sectionRows s.bare = sectionRows s := by
  have hrow : ∀ (headers : List Text) (r : Mapping),
      recordRow s.keyword headers r.bare = recordRow s.keyword headers r := by
    intro headers r
    rw [recordRow, recordRow, funext (cellOf_bare s.keyword r)]
  rw [sectionRows, sectionRows, headerRow_bare, Section.bare, Node.records_bare, headersOf_bare,
    List.mapM_map]
  simp only [Function.comp_def, hrow]

/-- A bare document is written as the same text, or not written for the same reason. -/
theorem render_bare (document : Document) (wanted : Nat) :
    render document.bare wanted = render document wanted := by
  have hwidth : widthOf document.bare.sections wanted = widthOf document.sections wanted := by
    rw [widthOf, widthOf, Mapping.sections_bare, List.foldl_map]
    simp only [headerRow_bare]
  have hrows : document.bare.sections.mapM sectionRows = document.sections.mapM sectionRows := by
    rw [Mapping.sections_bare, List.mapM_map]
    simp only [Function.comp_def, sectionRows_bare]
  rw [render, render, ofDocument, ofDocument, hwidth, hrows]

end Table

/-! ## Compact text -/

/-- Two fields with one name and the same text. -/
structure SameText (f g : Text × Data) : Prop where
  name : f.1 = g.1
  json : f.2.json = g.2.json
  left_present : f.2.isPresent = true
  right_present : g.2.isPresent = true

/-- The first fields of every name correspond to each other. A name is new in one of two
objects if it is new in the other one. -/
theorem forall₂_firstFields {fs gs : List (Text × Data)} (h : List.Forall₂ SameText fs gs) :
    List.Forall₂ SameText (firstFields fs) (firstFields gs) := by
  have hgo : ∀ kept kept' : List (Text × Data), List.Forall₂ SameText kept kept' →
      List.Forall₂ SameText
        (fs.foldl (fun kept f => if kept.any (·.1 == f.1) then kept else kept ++ [f]) kept)
        (gs.foldl (fun kept f => if kept.any (·.1 == f.1) then kept else kept ++ [f]) kept') := by
    induction h with
    | nil => exact fun _ _ hkept => hkept
    | @cons f g fs gs hfg _ ih =>
      intro kept kept' hkept
      -- the kept fields correspond to each other, so they have the same names
      have hany : kept.any (·.1 == g.1) = kept'.any (·.1 == g.1) := by
        clear ih
        induction hkept with
        | nil => rfl
        | cons hab _ ih => rw [List.any_cons, List.any_cons, hab.name, ih]
      rw [List.foldl_cons, List.foldl_cons]
      refine ih _ _ ?_
      rw [hfg.name, hany]
      split
      · exact hkept
      · exact List.rel_append hkept (.cons hfg .nil)
  exact hgo [] [] .nil

theorem jsonFields_cons {name : Text} {d : Data} (h : d.isPresent = true)
    (rest : List (Text × Data)) :
    Data.jsonFields ((name, d) :: rest) = (name, d.json) :: Data.jsonFields rest := by
  cases d with
  | absent => nomatch h
  | _ => rfl

theorem jsonFields_eq {fs gs : List (Text × Data)} (h : List.Forall₂ SameText fs gs) :
    Data.jsonFields fs = Data.jsonFields gs := by
  induction h with
  | nil => rfl
  | @cons f g fs gs hfg _ ih =>
    obtain ⟨name, d⟩ := f
    obtain ⟨name', d'⟩ := g
    obtain ⟨hname, hjson, hd, hd'⟩ := hfg
    rw [jsonFields_cons hd, jsonFields_cons hd', ih]
    exact congrArg (· :: Data.jsonFields gs) (Prod.ext hname hjson)

namespace Node

theorem isPresent_plain (n : Node) : n.plain.isPresent = true := by
  cases n with
  | scalar value position => cases value <;> rfl
  | list items position => rfl
  | mapping entries position => rfl

mutual

/-- Positions do not decide what stands behind an object. The induction goes along the node,
with the entries of a mapping as the second part. -/
theorem leavesNothing_bare : ∀ n : Node, n.bare.leavesNothing = n.leavesNothing
  | .scalar value position => by cases value <;> rfl
  | .list .. => rfl
  | .mapping entries _ => anyLeavesNothing_bareEntries entries

theorem anyLeavesNothing_bareEntries : ∀ entries : List Entry,
    anyLeavesNothing (bareEntries entries) = anyLeavesNothing entries
  | [] => rfl
  | ⟨_, value, _⟩ :: rest => by
    rw [bareEntries, anyLeavesNothing, anyLeavesNothing, leavesNothing_bare value,
      anyLeavesNothing_bareEntries rest]

end

mutual

/-- The compact text of a node is that of its bare form. Three inductions go together: one on
nodes, one on items, and one on entries, where the fields have the same names. -/
theorem json_plain_bare : ∀ n : Node, n.bare.plain.json = n.plain.json
  | .scalar value position => by
    cases value with
    | number n =>
      cases n with
      | negZero => exact Number.text_unsigned .negZero
      | _ => rfl
    | _ => rfl
  | .list items position => by
    rw [bare, plain, plain, Data.json, Data.json, jsonItems_plainItems_bare items]
  | .mapping entries position => by
    rw [bare, plain, plain, Data.json, Data.json,
      jsonFields_eq (forall₂_firstFields (sameText_plainEntries_bare false entries))]

theorem jsonItems_plainItems_bare : ∀ items : List Node,
    Data.jsonItems (plainItems (bareItems items)) = Data.jsonItems (plainItems items)
  | [] => rfl
  | item :: rest => by
    rw [bareItems, plainItems, plainItems, Data.jsonItems, Data.jsonItems, json_plain_bare item,
      jsonItems_plainItems_bare rest]

theorem sameText_plainEntries_bare : ∀ (alone : Bool) (entries : List Entry),
    List.Forall₂ SameText (plainEntries alone (bareEntries entries)) (plainEntries alone entries)
  | _, [] => .nil
  | alone, ⟨key, value, _⟩ :: rest => by
    rw [bareEntries, plainEntries, plainEntries, leavesNothing_bare value]
    split
    · exact sameText_plainEntries_bare _ rest
    · exact .cons ⟨rfl, json_plain_bare value, isPresent_plain _, isPresent_plain _⟩
        (sameText_plainEntries_bare alone rest)

end

theorem format_bare (n : Node) : n.bare.format = n.format :=
  n.json_plain_bare

end Node

/-- Equal documents have the same results, wherever they were written. Linted in the same
way they have as many violations, which agree one by one in what found them and in
severity; their widest records have the same width; they are written as the same table, or
not written for the same reason; and they have the same compact text. -/
theorem results_eq_of_same {a b : Document} (h : a.toNode.same b.toNode = true) :
    (∀ options : LintOptions, List.Forall₂ (fun v w => v.origin = w.origin ∧ v.severity = w.severity)
        (lintDocument a options) (lintDocument b options))
      ∧ a.longestRow = b.longestRow
      ∧ (∀ wanted : Nat, Table.render a wanted = Table.render b wanted)
      ∧ a.toNode.format = b.toNode.format := by
  have hbare : a.bare = b.bare := Mapping.bare_eq_of_same h
  refine ⟨fun options => ?_, ?_, fun wanted => ?_, ?_⟩
  · have hkinds : (lintDocument a options).map Violation.kind
        = (lintDocument b options).map Violation.kind := by
      rw [← kinds_lintDocument_bare a, hbare, kinds_lintDocument_bare b]
    rw [← List.forall₂_eq_eq_eq, List.forall₂_map_left_iff, List.forall₂_map_right_iff] at hkinds
    exact hkinds.imp fun v w hkind => Prod.mk.inj hkind
  · rw [← longestRow_bare a, hbare, longestRow_bare b]
  · rw [← Table.render_bare a, hbare, Table.render_bare b]
  · rw [← a.toNode.format_bare, ← Mapping.toNode_bare, hbare, Mapping.toNode_bare,
      b.toNode.format_bare]

/-- A record whose only key holds a number. -/
def numbered (n : Number) (position : Option Position) : Node :=
  .mapping [⟨"name", .scalar (.number n) position, position⟩] position

/-- Two records with one name, written on two lines with the sign of zero. -/
def placedDocument : Document :=
  ⟨[⟨"metadataBlock", .list [numbered .negZero (some ⟨2, some 3⟩), numbered .negZero (some ⟨3, some 3⟩)]
      (some ⟨2, some 1⟩), some ⟨1, some 1⟩⟩], some ⟨1, some 1⟩⟩

/-- The same records, written nowhere and without a sign. -/
def placelessDocument : Document :=
  ⟨[⟨"metadataBlock", .list [numbered 0 none, numbered 0 none] none, none⟩], none⟩

theorem results_eq_placedDocument :
    placedDocument.toNode.same placelessDocument.toNode = true
      ∧ (∀ options : LintOptions,
          List.Forall₂ (fun v w => v.origin = w.origin ∧ v.severity = w.severity)
            (lintDocument placedDocument options) (lintDocument placelessDocument options))
      ∧ placedDocument.longestRow = placelessDocument.longestRow
      ∧ (∀ wanted : Nat, Table.render placedDocument wanted = Table.render placelessDocument wanted)
      ∧ placedDocument.toNode.format = placelessDocument.toNode.format := by
  have hsame : placedDocument.toNode.same placelessDocument.toNode = true := by decide
  exact ⟨hsame, results_eq_of_same hsame⟩

end MetadataBlock
